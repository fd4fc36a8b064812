import Elfboot.Slub

/-!
The invariant of the slab allocator.

The objects of a slab are told by their number. A slab is on the list its number of objects
in use says, its freelist has the objects that nobody holds, and nobody holds an object
twice. Blocks share no page, and so no two objects share a byte.
-/

namespace Elfboot.SlubInv

open Elfboot.Circular Elfboot.Word Elfboot.Mm Elfboot.Slub

/-- An object that has been handed out and not freed since. -/
structure Obj where
  addr : ℕ
  cache : ℕ
  deriving DecidableEq

variable {C : Caches}

/-! ### Sizes -/

lemma calculateCacheOrder_pow {k : ℕ} (hk : k < 32) : calculateCacheOrder (2 ^ k) = k - 12 := by
  have hlt : 2 ^ k < 2 ^ 32 := Nat.pow_lt_pow_right (by decide) hk
  have hs : sub32 (2 ^ k) 1 = 2 ^ k - 1 := sub32_of_le Nat.one_le_two_pow hlt
  have hlog : log2 (2 ^ k - 1) + 1 = (k : ℤ) := by
    unfold log2 fls
    rcases Nat.eq_zero_or_pos k with rfl | hpos
    · simp
    · have h2 : 2 ≤ 2 ^ k := Nat.le_self_pow hpos.ne' 2
      have hl : Nat.log2 (2 ^ k - 1) = k - 1 := by
        rw [Nat.log2_eq_iff (by omega), Nat.sub_add_cancel hpos]
        have := Nat.two_pow_pred_add_two_pow_pred hpos
        omega
      rw [if_neg (by omega), hl]
      omega
  unfold calculateCacheOrder
  rw [hs, hlog, Int.toNat_natCast]
  change k - min k 12 = k - 12
  omega

/-- What the numbers of a cache come to. -/
structure Sized (c : Cache) : Prop where
  pos : 0 < c.size
  nums_pos : 1 ≤ c.nums
  nums_le : c.nums ≤ pageSize
  fits : c.nums * c.size = 2 ^ c.order * pageSize
  divides : c.size ≤ pageSize → c.size ∣ pageSize

lemma sized (c : Cache) : Sized c := by
  obtain ⟨k, hk, hsize⟩ := c.size_eq
  have hnums := c.nums_eq
  have horder := c.order_eq
  rw [hsize] at hnums horder
  rw [calculateCacheOrder_pow hk] at horder
  rcases Nat.lt_or_ge 12 k with hlarge | hsmall
  · have hdiv : pageSize / 2 ^ k = 0 := Nat.div_eq_of_lt (Nat.pow_lt_pow_right (by decide) hlarge)
    rw [hdiv, Nat.max_eq_right (Nat.zero_le 1)] at hnums
    refine ⟨hsize ▸ Nat.two_pow_pos k, hnums.ge, hnums.trans_le (by decide), ?_, ?_⟩
    · rw [hnums, hsize, horder, ← pow_add, Nat.sub_add_cancel hlarge.le, Nat.one_mul]
    · intro hle
      rw [hsize] at hle
      exact absurd hle (not_le.mpr (Nat.pow_lt_pow_right (by decide) hlarge))
  · have hdiv : pageSize / 2 ^ k = 2 ^ (12 - k) := Nat.pow_div hsmall (by decide)
    rw [hdiv, Nat.max_eq_left Nat.one_le_two_pow] at hnums
    refine ⟨hsize ▸ Nat.two_pow_pos k, hnums ▸ Nat.one_le_two_pow, ?_, ?_, ?_⟩
    · rw [hnums]
      exact Nat.pow_le_pow_right (by decide) (Nat.sub_le _ _)
    · rw [hnums, hsize, horder, Nat.sub_eq_zero_of_le hsmall, ← pow_add, Nat.sub_add_cancel hsmall,
        pow_zero, Nat.one_mul]
    · intro _
      rw [hsize]
      exact Nat.pow_dvd_pow 2 hsmall

/-! ### Slabs and their objects -/

/-- A page belongs to the block of a slab. -/
def Owns (b : Slab) (q : ℕ) : Prop := b.page ≤ q ∧ q < b.page + 2 ^ b.order

def Apart (b b' : Slab) : Prop := b.page + 2 ^ b.order ≤ b'.page ∨ b'.page + 2 ^ b'.order ≤ b.page

/-- The address of object `i` of a slab. -/
def objAddr (C : Caches) (b : Slab) (i : ℕ) : ℕ := b.page * pageSize + (C.cache b.cache).size * i

def IsObj (C : Caches) (b : Slab) (a : ℕ) : Prop := ∃ i < (C.cache b.cache).nums, a = objAddr C b i

/-- An address lies in the block of a slab. -/
def holds (b : Slab) (a : ℕ) : Bool :=
  b.page * pageSize ≤ a ∧ a < (b.page + 2 ^ b.order) * pageSize

/-- What `page_map` says of a slab. -/
structure SlabOk (C : Caches) (pageMap : ℕ → Page) (b : Slab) : Prop where
  pos : 0 < b.page
  bound : b.page + 2 ^ b.order ≤ 2 ^ 20
  order : b.order = (C.cache b.cache).order
  large : 8 ≤ (C.cache b.cache).size
  cache : (pageMap b.page).slabCache = b.cache
  paddr : (pageMap b.page).paddr = b.page * pageSize
  head : ∀ q, Owns b q → (pageMap q).compoundHead = b.page

variable {b b' : Slab} {a a' : ℕ} {pageMap : ℕ → Page}

lemma owns_self (b : Slab) : Owns b b.page := ⟨le_rfl, Nat.lt_add_of_pos_right (Nat.two_pow_pos _)⟩

lemma Apart.symm (h : Apart b b') : Apart b' b := Or.symm h

instance : Std.Symm Apart := ⟨fun _ _ => Apart.symm⟩

lemma Apart.not_owns {q : ℕ} (h : Apart b b') (hq : Owns b q) : ¬ Owns b' q := by
  unfold Apart at h
  unfold Owns at hq ⊢
  omega

lemma Apart.page_ne (h : Apart b b') : b.page ≠ b'.page := by
  intro e
  exact h.not_owns (owns_self b) (e ▸ owns_self b')

lemma not_apart_self (b : Slab) : ¬ Apart b b := fun h => h.page_ne rfl

/-- Objects lie inside the block. -/
lemma IsObj.inside (h : IsObj C b a) (ho : b.order = (C.cache b.cache).order) :
    b.page * pageSize ≤ a ∧ a + (C.cache b.cache).size ≤ (b.page + 2 ^ b.order) * pageSize := by
  obtain ⟨i, hi, rfl⟩ := h
  have hfit := (sized (C.cache b.cache)).fits
  have hmul : (C.cache b.cache).size * (i + 1) ≤
      (C.cache b.cache).nums * (C.cache b.cache).size := by
    rw [Nat.mul_comm _ (i + 1)]
    exact Nat.mul_le_mul_right _ hi
  unfold objAddr
  rw [Nat.add_mul, ho, ← hfit]
  rw [Nat.mul_succ] at hmul
  omega

lemma IsObj.holds (h : IsObj C b a) (ho : b.order = (C.cache b.cache).order) :
    holds b a = true := by
  have hin := h.inside ho
  have hpos := (sized (C.cache b.cache)).pos
  unfold SlubInv.holds
  rw [decide_eq_true_iff]
  omega

lemma Apart.not_holds (h : Apart b b') (ha : holds b a = true) : holds b' a = false := by
  unfold holds at ha ⊢
  rw [decide_eq_true_iff] at ha
  rw [decide_eq_false_iff_not]
  have hmul : ∀ m n : ℕ, m ≤ n → m * pageSize ≤ n * pageSize := fun _ _ h =>
    Nat.mul_le_mul_right _ h
  rcases h with h | h
  · have := hmul _ _ h
    omega
  · have := hmul _ _ h
    omega

lemma owns_of_holds (h : holds b a = true) : Owns b (Slub.physToPage a) := by
  unfold holds at h
  rw [decide_eq_true_iff] at h
  unfold Slub.physToPage
  rw [Nat.shiftRight_eq_div_pow]
  exact ⟨(Nat.le_div_iff_mul_le (by decide)).mpr h.1, (Nat.div_lt_iff_lt_mul (by decide)).mpr h.2⟩

/-- Two objects of a slab share no byte. -/
lemma IsObj.apart (h : IsObj C b a) (h' : IsObj C b a') (hne : a ≠ a') :
    a + (C.cache b.cache).size ≤ a' ∨ a' + (C.cache b.cache).size ≤ a := by
  obtain ⟨i, -, rfl⟩ := h
  obtain ⟨j, -, rfl⟩ := h'
  have hstep : ∀ m n : ℕ, m < n →
      objAddr C b m + (C.cache b.cache).size ≤ objAddr C b n := by
    intro m n hmn
    have := Nat.mul_le_mul_left (C.cache b.cache).size hmn
    unfold objAddr
    rw [Nat.mul_succ] at this
    omega
  rcases Nat.lt_trichotomy i j with h | rfl | h
  · exact Or.inl (hstep i j h)
  · exact absurd rfl hne
  · exact Or.inr (hstep j i h)

/-- Nor do objects of two slabs. -/
lemma Apart.objs (h : Apart b b') (ha : IsObj C b a) (ha' : IsObj C b' a')
    (ho : b.order = (C.cache b.cache).order) (ho' : b'.order = (C.cache b'.cache).order) :
    a + (C.cache b.cache).size ≤ a' ∨ a' + (C.cache b'.cache).size ≤ a := by
  have h1 := ha.inside ho
  have h2 := ha'.inside ho'
  rcases h with h | h
  · have := Nat.mul_le_mul_right pageSize h
    exact Or.inl (by omega)
  · have := Nat.mul_le_mul_right pageSize h
    exact Or.inr (by omega)

lemma SlabOk.congr {pageMap' : ℕ → Page} (h : SlabOk C pageMap b)
    (hq : ∀ q, Owns b q → ∃ n, pageMap' q = { pageMap q with inuse := n }) :
    SlabOk C pageMap' b := by
  obtain ⟨n, hn⟩ := hq _ (owns_self b)
  refine ⟨h.pos, h.bound, h.order, h.large, ?_, ?_, fun q hq' => ?_⟩
  · rw [hn, h.cache]
  · rw [hn, h.paddr]
  · obtain ⟨m, hm⟩ := hq q hq'
    rw [hm, h.head q hq']

/-! ### The invariant -/

/-- The list for a slab of which so many objects are in use. -/
def home (C : Caches) (b : Slab) (inuse : ℕ) : Node :=
  if inuse = (C.cache b.cache).nums then .slabsFull b.cache
  else if inuse = 0 then .slabsFree b.cache
  else .slabsPartial b.cache

def cacheHeads : Set Node := {x | ∃ c, x = .slabsFull c ∨ x = .slabsPartial c ∨ x = .slabsFree c}

/-- The heads of the caches, and those of the freelists. -/
def heads (slabs : List Slab) : Set Node := cacheHeads ∪ {x | ∃ b ∈ slabs, x = .freelist b.page}

structure Inv (C : Caches) (s : Mem) (live : List Obj) (f : Node → List Node) : Prop where
  lists : Lists s.links (heads s.slabs) f
  slab : ∀ b ∈ s.slabs, SlabOk C s.pageMap b
  apart : s.slabs.Pairwise Apart
  listed : ∀ g ∈ cacheHeads, ∀ x, x ∈ f g ↔
    ∃ b ∈ s.slabs, home C b (s.pageMap b.page).inuse = g ∧ x = .page b.page
  free : ∀ b ∈ s.slabs, ∀ x, x ∈ f (.freelist b.page) ↔
    ∃ a, x = .obj a ∧ IsObj C b a ∧ a ∉ live.map Obj.addr
  count : ∀ b ∈ s.slabs,
    (s.pageMap b.page).inuse + (f (.freelist b.page)).length = (C.cache b.cache).nums
  held : ∀ o ∈ live, ∃ b ∈ s.slabs, b.cache = o.cache ∧ IsObj C b o.addr
  nodup : (live.map Obj.addr).Nodup
  inuse : ∀ b ∈ s.slabs, live.countP (fun o => holds b o.addr) = (s.pageMap b.page).inuse

lemma home_mem (b : Slab) (n : ℕ) : home C b n ∈ cacheHeads := by
  unfold home
  split_ifs
  · exact ⟨_, Or.inl rfl⟩
  · exact ⟨_, Or.inr (Or.inr rfl)⟩
  · exact ⟨_, Or.inr (Or.inl rfl)⟩

lemma cacheHeads_sub (slabs : List Slab) : cacheHeads ⊆ heads slabs := Set.subset_union_left

lemma freelist_mem {slabs : List Slab} (h : b ∈ slabs) : Node.freelist b.page ∈ heads slabs :=
  Or.inr ⟨b, h, rfl⟩

lemma page_not_head (p : ℕ) (slabs : List Slab) : Node.page p ∉ heads slabs := by
  rintro (⟨c, h | h | h⟩ | ⟨b, -, h⟩) <;> cases h

lemma obj_not_head (a : ℕ) (slabs : List Slab) : Node.obj a ∉ heads slabs := by
  rintro (⟨c, h | h | h⟩ | ⟨b, -, h⟩) <;> cases h

lemma freelist_not_cacheHead (p : ℕ) : Node.freelist p ∉ cacheHeads := by
  rintro ⟨c, h | h | h⟩ <;> cases h

lemma home_ne_freelist (n p : ℕ) : home C b n ≠ .freelist p := by
  intro e
  exact freelist_not_cacheHead p (e ▸ home_mem b n)

variable {s s' : Mem} {live live' : List Obj} {f f' : Node → List Node} {o : Obj}

section inv

variable (h : Inv C s live f)
include h

lemma Inv.apart_of (hb : b ∈ s.slabs) (hb' : b' ∈ s.slabs) (hne : b ≠ b') : Apart b b' :=
  h.apart.forall hb hb' hne

lemma Inv.page_inj (hb : b ∈ s.slabs) (hb' : b' ∈ s.slabs) (he : b.page = b'.page) : b = b' := by
  by_contra hne
  exact (h.apart_of hb hb' hne).page_ne he

lemma Inv.holds_obj (hb : b ∈ s.slabs) (ha : IsObj C b a) : holds b a = true :=
  ha.holds (h.slab b hb).order

/-- An object belongs to one slab. -/
lemma Inv.slab_unique (hb : b ∈ s.slabs) (hb' : b' ∈ s.slabs) (ha : IsObj C b a)
    (ha' : IsObj C b' a) : b = b' := by
  by_contra hne
  have h1 := (h.apart_of hb hb' hne).not_holds (h.holds_obj hb ha)
  rw [h.holds_obj hb' ha'] at h1
  exact absurd h1 (by decide)

/-- **Objects share no byte**, whichever slabs they are in. -/
theorem Inv.objs_apart (hb : b ∈ s.slabs) (hb' : b' ∈ s.slabs) (ha : IsObj C b a)
    (ha' : IsObj C b' a') (hne : a ≠ a') :
    a + (C.cache b.cache).size ≤ a' ∨ a' + (C.cache b'.cache).size ≤ a := by
  by_cases he : b = b'
  · subst he
    exact ha.apart ha' hne
  · exact (h.apart_of hb hb' he).objs ha ha' (h.slab b hb).order (h.slab b' hb').order

/-- What the nodes on the lists are. -/
lemma Inv.entry {g x : Node} (hg : g ∈ heads s.slabs) (hx : x ∈ f g) :
    (∃ b ∈ s.slabs, x = .page b.page) ∨
      ∃ b ∈ s.slabs, ∃ a, x = .obj a ∧ IsObj C b a ∧ a ∉ live.map Obj.addr := by
  rcases hg with hg | ⟨b, hb, rfl⟩
  · obtain ⟨b, hb, -, rfl⟩ := (h.listed g hg x).mp hx
    exact Or.inl ⟨b, hb, rfl⟩
  · exact Or.inr ⟨b, hb, (h.free b hb x).mp hx⟩

lemma Inv.fresh_obj (ha : ∀ b ∈ s.slabs, IsObj C b a → a ∈ live.map Obj.addr) :
    Fresh (heads s.slabs) f (.obj a) := by
  intro g hg hmem
  rcases List.mem_cons.mp hmem with rfl | hx
  · exact obj_not_head a _ hg
  · rcases h.entry hg hx with ⟨b, -, hx⟩ | ⟨b, hb, a', hx, hobj, hnot⟩
    · cases hx
    · cases hx
      exact hnot (ha b hb hobj)

lemma Inv.fresh_page {p : ℕ} (hp : ∀ b ∈ s.slabs, b.page ≠ p) :
    Fresh (heads s.slabs) f (.page p) := by
  intro g hg hmem
  rcases List.mem_cons.mp hmem with rfl | hx
  · exact page_not_head p _ hg
  · rcases h.entry hg hx with ⟨b, hb, hx⟩ | ⟨b, hb, a', hx, -⟩
    · cases hx
      exact hp b hb rfl
    · cases hx

lemma Inv.fresh_freelist {p : ℕ} (hp : ∀ b ∈ s.slabs, b.page ≠ p) :
    Fresh (heads s.slabs) f (.freelist p) := by
  intro g hg hmem
  rcases List.mem_cons.mp hmem with rfl | hx
  · rcases hg with hg | ⟨b, hb, hx⟩
    · exact freelist_not_cacheHead p hg
    · cases hx
      exact hp b hb rfl
  · rcases h.entry hg hx with ⟨b, -, hx⟩ | ⟨b, -, a', hx, -⟩ <;> cases hx

lemma Inv.page_mem (hb : b ∈ s.slabs) :
    Node.page b.page ∈ f (home C b (s.pageMap b.page).inuse) :=
  (h.listed _ (home_mem b _) _).mpr ⟨b, hb, rfl, rfl⟩

end inv

end Elfboot.SlubInv
