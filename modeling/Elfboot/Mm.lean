import Elfboot.Word

/-!
The constants of the memory managers, and the regions one hands to the other.
-/

namespace Elfboot.Mm

abbrev pageShift : ℕ := 12
abbrev pageSize : ℕ := 2 ^ 12
abbrev memoryStart : ℕ := 0x10000
abbrev memoryLimit : ℕ := 0x100000

/-- `struct memblock_region`. -/
structure Region where
  base : ℕ
  size : ℕ
  deriving DecidableEq

/-- `memblock_end`: the sum of base and size as a `uint32_t`. -/
def Region.stop (r : Region) : ℕ := Word.u32 (r.base + r.size)

/-- The addresses of a region. -/
def Region.addrs (r : Region) : Set ℕ := {a | r.base ≤ a ∧ a < r.base + r.size}

@[simp] lemma mem_addrs {r : Region} {a : ℕ} :
    a ∈ r.addrs ↔ r.base ≤ a ∧ a < r.base + r.size := Iff.rfl

end Elfboot.Mm
