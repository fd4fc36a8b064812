import Elfboot.Buffer

/-!
Words written to memory, one after the other.

Words that do not overlap can be written in any order: each is read back, and what lies
outside them all stays.
-/

namespace Elfboot.WordWrites

open Elfboot.Buffer

/-- The byte is one of the word at `p`. -/
def InWord (p i : ℕ) : Prop := p ≤ i ∧ i < p + 4

/-- Two words do not overlap. -/
def Apart (p q : ℕ) : Prop := p + 4 ≤ q ∨ q + 4 ≤ p

/-- Words are written, at the places they stand with. -/
def writes (b : Bytes) (ws : List (ℕ × ℕ)) : Bytes := ws.foldl (fun b w => put32 b w.1 w.2) b

variable {b b' : Bytes} {p q i v : ℕ} {w : ℕ × ℕ} {ws ws' : List (ℕ × ℕ)}

instance : Decidable (Apart p q) := inferInstanceAs (Decidable (_ ∨ _))

lemma Apart.symm (h : Apart p q) : Apart q p := Or.symm h

lemma Apart.notMem (h : Apart p q) {k : ℕ} (hk : k < 4) : ¬ InWord p (q + k) := by
  unfold Apart at h
  unfold InWord
  omega

/-! ### One word -/

lemma put32_off (h : ¬ InWord p i) (b : Bytes) (v : ℕ) : put32 b p v i = b i := if_neg h

lemma put32_in (h : InWord p i) (b : Bytes) (v : ℕ) :
    put32 b p v i = UInt8.ofNat (v / 2 ^ (8 * (i - p))) := if_pos h

lemma put32_at (b : Bytes) (p v : ℕ) {k : ℕ} (hk : k < 4) :
    put32 b p v (p + k) = UInt8.ofNat (v / 2 ^ (8 * k)) := by
  rw [put32_in ⟨Nat.le_add_right p k, by omega⟩, Nat.add_sub_cancel_left]

lemma le32_put32 (hv : v < 2 ^ 32) (b : Bytes) (p : ℕ) : le32 (put32 b p v) p = v := by
  have h0 := put32_at b p v (k := 0) (by decide)
  rw [Nat.add_zero] at h0
  unfold le32
  rw [h0, put32_at b p v (k := 1) (by decide), put32_at b p v (k := 2) (by decide),
    put32_at b p v (k := 3) (by decide)]
  simp only [UInt8.toNat_ofNat']
  omega

lemma le32_put32_apart (h : Apart p q) (b : Bytes) (v : ℕ) : le32 (put32 b p v) q = le32 b q :=
  le32_congr fun _ hk => put32_off (h.notMem hk) b v

lemma put32_comm (h : Apart p q) (b : Bytes) (v v' : ℕ) :
    put32 (put32 b p v) q v' = put32 (put32 b q v') p v := by
  funext i
  by_cases hp : InWord p i
  · have hq : ¬ InWord q i := by
      unfold InWord Apart at *
      omega
    rw [put32_off hq, put32_in hp, put32_in hp]
  · rw [put32_off hp]
    by_cases hq : InWord q i
    · rw [put32_in hq, put32_in hq]
    · rw [put32_off hq, put32_off hq, put32_off hp]

/-! ### A list of words -/

lemma writes_concat (b : Bytes) (ws : List (ℕ × ℕ)) (w : ℕ × ℕ) :
    writes b (ws ++ [w]) = put32 (writes b ws) w.1 w.2 := by
  unfold writes
  rw [List.foldl_append]
  rfl

lemma writes_off (h : ∀ w ∈ ws, ¬ InWord w.1 i) (b : Bytes) : writes b ws i = b i := by
  induction ws generalizing b with
  | nil => rfl
  | cons w ws ih =>
    rw [List.forall_mem_cons] at h
    exact (ih h.2 _).trans (put32_off h.1 b w.2)

/-- A word that none of the others overlaps is read as it was. -/
lemma le32_writes_apart (h : ∀ w ∈ ws, Apart w.1 q) (b : Bytes) :
    le32 (writes b ws) q = le32 b q :=
  le32_congr fun _ hk => writes_off (fun w hw => (h w hw).notMem hk) b

/-- Where a byte is written does not depend on what it was. -/
lemma writes_congr (h : b i = b' i) (ws : List (ℕ × ℕ)) : writes b ws i = writes b' ws i := by
  induction ws generalizing b b' with
  | nil => exact h
  | cons w ws ih =>
    refine ih ?_
    dsimp only [put32]
    rw [h]

/-- **The order does not matter** of words that do not overlap. -/
theorem writes_perm (h : ws.Perm ws') (hp : (ws.map Prod.fst).Pairwise Apart) (b : Bytes) :
    writes b ws = writes b ws' := by
  refine h.foldl_eq' (fun w hw w' hw' b => ?_) b
  by_cases heq : w = w'
  · rw [heq]
  · have : Std.Symm fun w w' : ℕ × ℕ => Apart w.1 w'.1 := ⟨fun _ _ h => h.symm⟩
    exact put32_comm ((List.pairwise_map.1 hp).forall hw hw' heq) b w.2 w'.2

/-- **Each word is read back.** -/
theorem le32_writes (hp : (ws.map Prod.fst).Pairwise Apart) (hw : w ∈ ws) (hv : w.2 < 2 ^ 32)
    (b : Bytes) : le32 (writes b ws) w.1 = w.2 := by
  induction ws generalizing b with
  | nil => cases hw
  | cons w' ws ih =>
    rw [List.map_cons, List.pairwise_cons] at hp
    rcases List.mem_cons.1 hw with rfl | hw
    · have happ : ∀ w' ∈ ws, Apart w'.1 w.1 :=
        fun w' hw' => (hp.1 _ (List.mem_map_of_mem hw')).symm
      exact (le32_writes_apart happ _).trans (le32_put32 hv b w.1)
    · exact ih hp.2 hw _

end Elfboot.WordWrites
