import Elfboot.SlubRuns

/-!
The cache that `bmalloc` takes for a size.
-/

namespace Elfboot.SizeClass

open Elfboot.Word Elfboot.Slub Elfboot.SlubOps Elfboot.SlubRuns

variable {C : Caches} {size k : ℕ}

/-- The powers of two that an object of the size fits in, none of them below the smallest cache. -/
def Fits (size : ℕ) : Set ℕ := {n | (∃ k, n = 2 ^ k) ∧ max size kmallocMinSize ≤ n}

/-- What `bmalloc` should take for a size: a cache with room for it, the smallest one there is up
to 32 KiB, and none above. -/
structure Serves (C : Caches) (size : ℕ) : Prop where
  room : ∀ c, bmallocCache size = some c → size ≤ (C.cache c).size
  smallest : 1 ≤ size → size ≤ 32768 →
    ∃ c, bmallocCache size = some c ∧ IsLeast (Fits size) (C.cache c).size
  large : 32768 < size → bmallocCache size = none

/-- Rounding up gives the smallest power of two that is enough. -/
lemma roundUpPow2_least (h0 : 0 < size) (h : size ≤ 2 ^ 31) (hk : size ≤ 2 ^ k) :
    roundUpPow2 size ≤ 2 ^ k := by
  rcases Nat.lt_or_ge k 32 with hlt | hge
  · exact (roundUpPow2_room h0 hlt hk).2
  · have htop := (roundUpPow2_room h0 (by decide) h).2
    exact htop.trans (Nat.pow_le_pow_right Nat.two_pos (by omega))

/-- The size of the cache, for the sizes that there is one for. -/
lemma cache_size (h0 : 0 < size) (h : size ≤ 2 ^ 15) :
    (C.cache (bmallocIndex size).toNat).size = max (roundUpPow2 size) kmallocMinSize := by
  obtain ⟨hround, htop⟩ := roundUpPow2_room h0 (by decide) h
  obtain ⟨k, hk, hpow⟩ := roundUpPow2_eq size
  unfold bmallocIndex
  rw [if_neg h0.ne']
  dsimp only
  rw [hpow] at hround htop ⊢
  have h15 : k ≤ 15 := (Nat.pow_le_pow_iff_right Nat.one_lt_two).1 htop
  by_cases h8 : 2 ^ k ≤ kmallocMinSize
  · rw [if_pos h8, max_eq_right h8]
    exact C.bmalloc 0 (by decide)
  · have h3 : 3 < k := (Nat.pow_lt_pow_iff_right Nat.one_lt_two).1 (not_le.1 h8)
    have hindex : (log2 (2 ^ k) - 3).toNat = k - 3 := by
      rw [log2_two_pow]
      omega
    have hi : k - 3 < kmallocCacheNum := by
      change k - 3 < 13
      omega
    rw [if_neg h8, if_pos ⟨not_le.1 h8, htop⟩, max_eq_left (not_le.1 h8).le, hindex,
      C.bmalloc _ hi, bmallocInfo_eq _ hi, Nat.sub_add_cancel h3.le]

lemma serves_of_le (h : size ≤ 2 ^ 31) : Serves C size where
  room := by
    intro c hc
    rcases Nat.lt_or_ge (2 ^ 15) size with hlt | hle
    · rw [bmallocCache_none hlt h] at hc
      cases hc
    · obtain ⟨hcache, hroom, -⟩ := bmallocCache_room (C := C) hle
      rw [hcache] at hc
      cases hc
      exact hroom
  smallest := by
    intro h1 hle
    obtain ⟨hcache, hroom, h8⟩ := bmallocCache_room (C := C) hle
    refine ⟨_, hcache, ⟨?_, max_le hroom h8⟩, ?_⟩
    · obtain ⟨k, -, hpow⟩ := (C.cache (bmallocIndex size).toNat).size_eq
      exact ⟨k, hpow⟩
    · rintro _ ⟨⟨k, rfl⟩, hfits⟩
      rw [cache_size h1 hle]
      exact max_le (roundUpPow2_least h1 h ((le_max_left _ _).trans hfits))
        ((le_max_right _ _).trans hfits)
  large hlt := bmallocCache_none hlt h

/-- Above 2 GiB rounding up gives 1. -/
lemma bmallocCache_wraps (h : 2 ^ 31 < size) (hlt : size < 2 ^ 32) :
    bmallocCache size = some 0 := by
  have hlog : Nat.log2 (size - 1) = 31 :=
    (Nat.log2_eq_iff (by omega)).2 ⟨by omega, by omega⟩
  have hfls : fls (size - 1) = 32 := by
    rw [fls_of_pos (by omega), hlog]
  have hround : roundUpPow2 size = 1 := by
    unfold roundUpPow2
    rw [sub32_of_le (by omega) hlt, hfls]
    rfl
  unfold bmallocCache bmallocIndex
  rw [if_neg (by omega : size ≠ 0), hround]
  rfl

/-- Every size that a cache is taken for has one of the caches of `bmalloc`. -/
lemma bmallocCache_some {c : ℕ} (h : bmallocCache size = some c) :
    c = (bmallocIndex size).toNat ∧ 8 ≤ (C.cache c).size := by
  have hcache : c = (bmallocIndex size).toNat := by
    unfold bmallocCache at h
    dsimp only at h
    split_ifs at h
    exact (Option.some_inj.1 h).symm
  refine ⟨hcache, ?_⟩
  have hlt : c < kmallocCacheNum := by
    rw [hcache]
    unfold bmallocIndex
    split_ifs with h0
    · decide
    obtain ⟨k, -, hpow⟩ := roundUpPow2_eq size
    dsimp only
    rw [hpow]
    split_ifs with h8 h15
    · decide
    · have hk : k ≤ 15 := (Nat.pow_le_pow_iff_right Nat.one_lt_two).1 h15.2
      rw [log2_two_pow]
      change _ < 13
      omega
    · decide
  rw [C.bmalloc c hlt, bmallocInfo_eq c hlt]
  exact Nat.pow_le_pow_right Nat.two_pos (Nat.le_add_left 3 c)

/-- There is none just for the sizes between 32 KiB and 2 GiB. -/
lemma bmallocCache_none_iff (h : size < 2 ^ 32) :
    bmallocCache size = none ↔ 2 ^ 15 < size ∧ size ≤ 2 ^ 31 := by
  constructor
  · intro hnone
    constructor
    · by_contra hle
      obtain ⟨i, -, hidx, -⟩ := bmallocIndex_room (not_lt.1 hle)
      unfold bmallocCache at hnone
      rw [hidx] at hnone
      exact absurd hnone (by simp)
    · by_contra hgt
      rw [bmallocCache_wraps (not_le.1 hgt) h] at hnone
      cases hnone
  · exact fun hsize => bmallocCache_none hsize.1 hsize.2

/-- **The size classes are right** for exactly the sizes up to 2 GiB: above, an object of eight
bytes is given. -/
theorem serves_iff (C : Caches) (size : ℕ) (h : size < 2 ^ 32) :
    Serves C size ↔ size ≤ 2 ^ 31 := by
  constructor
  · intro hs
    by_contra hgt
    have hlarge := hs.large (by omega)
    rw [bmallocCache_wraps (not_le.1 hgt) h] at hlarge
    cases hlarge
  · exact serves_of_le

theorem serves_iff_page : Serves bootCaches 4096 ↔ 4096 ≤ 2 ^ 31 :=
  serves_iff bootCaches 4096 (by decide)

/-- One byte more than 2 GiB. -/
theorem not_serves : ¬ Serves bootCaches (2 ^ 31 + 1) := by
  intro hs
  have hroom := hs.room 0 (bmallocCache_wraps (by decide) (by decide))
  rw [bootCaches.bmalloc 0 (by decide)] at hroom
  exact absurd hroom (by decide)

end Elfboot.SizeClass
