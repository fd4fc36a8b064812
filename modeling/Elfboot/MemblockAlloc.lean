import Elfboot.MemblockRuns

/-!
What an allocation from the boot-time memory map promises.

It looks for the first entry that has a place, and reserves that place. Whether that went
well is read off the result of the removal, which says so only if a part of the entry is left
behind the place.
-/

namespace Elfboot.MemblockAlloc

open Elfboot.Run Elfboot.Word Elfboot.Mm Elfboot.Memblock Elfboot.RegionList Elfboot.RegionOrder
open Elfboot.MemblockTable

variable {t : MemblockType} {A l : List Region} {r x : Region} {size align k p b d e n : ℕ}

/-- A place for `size` bytes in the part of a region that may be allocated. -/
structure Place (size align : ℕ) (r : Region) (p : ℕ) : Prop where
  aligned : align ∣ p
  ge : max r.base memoryStart ≤ p
  le : p + size ≤ min (r.base + r.size) memoryLimit

/-- The first aligned address of a region that may be allocated. -/
def lowest (align : ℕ) (r : Region) : ℕ := (max r.base memoryStart + align - 1) / align * align

def HasPlace (size align : ℕ) (r : Region) : Prop :=
  lowest align r + size ≤ min (r.base + r.size) memoryLimit

instance (size align : ℕ) (r : Region) : Decidable (HasPlace size align r) :=
  inferInstanceAs (Decidable (_ ≤ _))

lemma lowest_ge (ha : 0 < align) (r : Region) : max r.base memoryStart ≤ lowest align r := by
  have h1 := Nat.div_add_mod (max r.base memoryStart + align - 1) align
  have h2 := Nat.mod_lt (max r.base memoryStart + align - 1) ha
  rw [lowest, Nat.mul_comm]
  omega

lemma lowest_le (ha : 0 < align) (hp : align ∣ p) (hr : max r.base memoryStart ≤ p) :
    lowest align r ≤ p := by
  obtain ⟨c, rfl⟩ := hp
  rw [lowest, Nat.mul_comm]
  refine Nat.mul_le_mul_left _ (Nat.le_of_lt_succ ?_)
  rw [Nat.div_lt_iff_lt_mul ha, Nat.succ_mul, Nat.mul_comm c]
  omega

lemma hasPlace_iff (ha : 0 < align) : HasPlace size align r ↔ ∃ p, Place size align r p := by
  constructor
  · exact fun h => ⟨lowest align r, Nat.dvd_mul_left _ _, lowest_ge ha r, h⟩
  · rintro ⟨p, h1, h2, h3⟩
    have := lowest_le ha h1 h2
    unfold HasPlace
    omega

/-- What an allocation promises: it finds a place exactly if there is one; the place was free,
is taken, and nothing outside its pages is; and without a place nothing happens. -/
structure Keeps (t : MemblockType) (size align : ℕ) : Prop where
  found : (memblockAlloc t size align).2 ≠ 0 ↔ ∃ r ∈ entries t, ∃ p, Place size align r p
  aligned : (memblockAlloc t size align).2 ≠ 0 → align ∣ (memblockAlloc t size align).2
  free : (memblockAlloc t size align).2 ≠ 0 →
    Set.Ico (memblockAlloc t size align).2 ((memblockAlloc t size align).2 + size) ⊆
      covered (entries t)
  taken : (memblockAlloc t size align).2 ≠ 0 →
    Disjoint (Set.Ico (memblockAlloc t size align).2 ((memblockAlloc t size align).2 + size))
      (covered (entries (memblockAlloc t size align).1))
  rest : (memblockAlloc t size align).2 ≠ 0 →
    covered (entries t) \ pageRange (memblockAlloc t size align).2 size ⊆
      covered (entries (memblockAlloc t size align).1)
  failed : (memblockAlloc t size align).2 = 0 →
    covered (entries (memblockAlloc t size align).1) = covered (entries t)

/-! ### Finding a place -/

/-- A region that the search takes. Its end as a `uint32_t` is zero for one that ends with
the address space. -/
def Taken (size align : ℕ) (r : Region) : Prop := HasPlace size align r ∧ r.stop ≠ 0

instance (size align : ℕ) (r : Region) : Decidable (Taken size align r) :=
  inferInstanceAs (Decidable (_ ∧ _))

lemma stop_eq (hr : r.base + r.size ≤ 2 ^ 32) : r.stop = r.base + r.size ∨
    r.stop = 0 ∧ r.base + r.size = 2 ^ 32 := by
  rcases Nat.lt_or_ge (r.base + r.size) (2 ^ 32) with h | h
  · exact .inl (stop_of_lt h)
  · have heq : r.base + r.size = 2 ^ 32 := by omega
    right
    rw [Region.stop, heq]
    decide

/-- What a turn of the search tests. -/
lemma turn_iff (hk : k < 32) (hs : 1 ≤ size) (hr : r.base + r.size ≤ 2 ^ 32) :
    let cand := roundUp (clamp r.base memoryStart memoryLimit) (2 ^ k)
    (cand < clamp r.stop memoryStart memoryLimit ∧
        size ≤ sub32 (clamp r.stop memoryStart memoryLimit) cand ↔ Taken size (2 ^ k) r) ∧
      (Taken size (2 ^ k) r → cand = lowest (2 ^ k) r) := by
  have hstart : memoryStart = 0x10000 := rfl
  have hlimit : memoryLimit = 0x100000 := rfl
  have hpos := Nat.two_pow_pos k
  have hle : 2 ^ k ≤ 2 ^ 31 := Nat.pow_le_pow_right (by decide) (by omega)
  have hstop : clamp r.stop memoryStart memoryLimit ≤ memoryLimit := min_le_right _ _
  have hsub : ∀ c, c < clamp r.stop memoryStart memoryLimit →
      sub32 (clamp r.stop memoryStart memoryLimit) c = clamp r.stop memoryStart memoryLimit - c :=
    fun c hc => sub32_of_le hc.le (by omega)
  have hge := lowest_ge hpos r
  intro cand
  rcases Nat.lt_or_ge memoryLimit r.base with hlim | hlim
  · -- the region begins behind the limit
    have hbeg : clamp r.base memoryStart memoryLimit = memoryLimit := by
      unfold clamp
      omega
    have hc : memoryLimit ≤ cand := by
      show _ ≤ roundUp _ _
      rw [hbeg, roundUp_ceil (by decide) hk (by omega)]
      have h1 := Nat.div_add_mod (memoryLimit + 2 ^ k - 1) (2 ^ k)
      have h2 := Nat.mod_lt (memoryLimit + 2 ^ k - 1) hpos
      rw [Nat.mul_comm]
      omega
    have hno : ¬ Taken size (2 ^ k) r := by
      rintro ⟨h, -⟩
      unfold HasPlace at h
      omega
    exact ⟨iff_of_false (by omega) hno, fun h => absurd h hno⟩
  · have hbeg : clamp r.base memoryStart memoryLimit = max r.base memoryStart := by
      unfold clamp
      omega
    have hc : cand = lowest (2 ^ k) r := by
      show roundUp _ _ = _
      rw [hbeg, roundUp_ceil (by omega) hk (by omega), lowest]
    refine ⟨?_, fun _ => hc⟩
    rw [hc]
    unfold Taken HasPlace
    constructor
    · rintro ⟨h1, h2⟩
      rw [hsub _ h1] at h2
      have h3 : clamp r.stop memoryStart memoryLimit = min r.stop memoryLimit := by
        unfold clamp at h1 ⊢
        omega
      rcases stop_eq hr with h | ⟨h, -⟩ <;> omega
    · rintro ⟨h1, h2⟩
      have h3 : clamp r.stop memoryStart memoryLimit = min (r.base + r.size) memoryLimit := by
        unfold clamp
        rcases stop_eq hr with h | ⟨h, -⟩ <;> omega
      have h4 : lowest (2 ^ k) r < clamp r.stop memoryStart memoryLimit := by omega
      rw [hsub _ h4]
      omega

lemma findLoop_eq (hk : k < 32) (hs : 1 ≤ size) : ∀ {A l : List Region}, entries t = A ++ l →
    (∀ r ∈ l, r.base + r.size ≤ 2 ^ 32) →
    findLoop t size (2 ^ k) memoryStart memoryLimit l.length A.length =
      ((l.find? (Taken size (2 ^ k) ·)).map (lowest (2 ^ k))).getD 0
  | A, [], _, _ => rfl
  | A, x :: l, h, hl => by
    obtain ⟨hx, hl⟩ := List.forall_mem_cons.mp hl
    have hat := (region_at h).2
    have hsplit : entries t = (A ++ [x]) ++ l := by simpa using h
    have ih := findLoop_eq hk hs hsplit hl
    rw [List.length_append, List.length_singleton] at ih
    obtain ⟨h1, h2⟩ := turn_iff (r := x) hk hs hx
    rw [List.length_cons, findLoop, hat]
    by_cases ht : Taken size (2 ^ k) x
    · rw [if_pos (h1.mpr ht), h2 ht, List.find?_cons_of_pos (by simpa using ht)]
      rfl
    · rw [if_neg (mt h1.mp ht), ih, List.find?_cons_of_neg (by simpa using ht)]

/-! ### Taking it -/

lemma delLoop_past (h : entries t = A ++ l) (hl : ∀ x ∈ l, e ≤ x.base) (n : ℕ) :
    (delLoop e n t A.length b d).2 = d := by
  cases n with
  | zero => rfl
  | succ n =>
    rcases l with _ | ⟨x, l⟩
    · have hc := cnt_of h
      rw [delLoop, if_neg (by simp [hc])]
    · obtain ⟨hlt, hx⟩ := region_at h
      rw [delLoop, if_pos hlt, hx, if_pos (hl x List.mem_cons_self)]

/-- The result of the removal is the place, if something of the region is left behind it, and
what it was before if not. -/
lemma delLoop_result (hd : d ≠ 0) (hb : r.base ≤ b) (hbe : b < e) (he : e ≤ r.base + r.size)
    (hr : r.base + r.size < 2 ^ 32) : ∀ {n : ℕ} {t : MemblockType} {A l : List Region},
    entries t = A ++ l → Ordered l → r ∈ l → l.length ≤ n →
    (delLoop e n t A.length b d).2 = if e < r.base + r.size then b else d
  | _, _, _, [], _, _, hmem, _ => absurd hmem List.not_mem_nil
  | 0, _, _, _ :: _, _, _, _, hn => absurd hn (Nat.not_succ_le_zero _)
  | n + 1, t, A, x :: l, h, ho, hmem, hn => by
    obtain ⟨-, -, hnext, hol⟩ := ordered_cons.mp ho
    rw [List.length_cons] at hn
    rcases List.mem_cons.mp hmem with rfl | hmem
    · have hpast : ∀ y ∈ l, e ≤ y.base := fun y hy => he.trans (hnext y hy)
      rcases Nat.lt_or_ge e (r.base + r.size) with hlast | hlast
      · rw [if_pos hlast]
        rcases Nat.lt_or_ge r.base b with hfirst | hfirst
        · rw [delLoop_split h hr hfirst hbe.le hlast]
        · rw [delLoop_left h hr hfirst (by omega) hlast]
      · rw [if_neg (not_lt.mpr hlast)]
        rcases Nat.lt_or_ge r.base b with hfirst | hfirst
        · -- the right part goes, and the result is not set
          rw [delLoop_right h hr hfirst (by omega) hlast, if_neg hd]
          have hset := (entries_total _ (sub32 t.totalSize (r.base + r.size - b))).trans
            (entries_set h ⟨r.base, b - r.base⟩)
          have := delLoop_past (b := r.base + r.size) (d := d)
            (hset.trans (List.append_cons _ _ _)) hpast n
          rwa [List.length_append, List.length_singleton] at this
        · -- all of it goes, and the result is not set
          rw [delLoop_all h hr hfirst (by omega) (by omega) hlast, if_neg hd]
          exact delLoop_past (entries_remove (entries_set h _) _) hpast n
    · have hle := hnext r hmem
      have hsplit : entries t = (A ++ [x]) ++ l := by simpa using h
      have ih := delLoop_result hd hb hbe he hr hsplit hol hmem (show l.length ≤ n by omega)
      rw [List.length_append, List.length_singleton] at ih
      rw [delLoop_behind h (by omega) (by omega) (by omega), ih]

lemma ordered_clears (h : Ordered l) (b e : ℕ) : l.Pairwise (Clears b e) := by
  refine h.order.imp fun hxy hm => ?_
  unfold Meets at hm
  exact ⟨by omega, fun _ => ⟨by omega, fun _ => hxy⟩⟩

/-! ### The promise -/

/-- The first region with a place goes on behind the pages of the place, to an end that is
not the end of the address space. -/
def Roomy (t : MemblockType) (size align : ℕ) : Prop :=
  ∀ r, (entries t).find? (HasPlace size align ·) = some r →
    pageEnd (lowest align r) size < r.stop

lemma alloc_none (h : memblockFindInRange t size align memoryStart memoryLimit = 0) :
    memblockAlloc t size align = (t, 0) := by
  simp [memblockAlloc, memblockAllocRange, h]

lemma alloc_some (h : memblockFindInRange t size align memoryStart memoryLimit = p) (hp : p ≠ 0) :
    memblockAlloc t size align =
      ((memblockReserve t p size).1, if (memblockReserve t p size).2 then p else 0) := by
  simp only [memblockAlloc, memblockAllocRange, h, if_neg hp]

/-- The pages of a place are those of its region. -/
lemma place_pages (hr : pageSize ∣ r.base ∧ pageSize ∣ r.size) (hs : 1 ≤ size)
    (h : Place size align r p) : r.base ≤ pageBeg p ∧ pageBeg p < pageEnd p size ∧
      pageEnd p size ≤ r.base + r.size ∧ pageEnd p size ≤ memoryLimit := by
  obtain ⟨-, h1, h2⟩ := h
  obtain ⟨⟨i, hi⟩, j, hj⟩ := hr
  simp only [pageBeg, pageEnd, pageSize] at hi hj ⊢
  have hlimit : memoryLimit = 0x100000 := rfl
  omega

/-- What becomes of a place that is found in a region that does not end with the address
space. -/
lemma alloc_place (hw : WellFormed (entries t)) (hr : r ∈ entries t)
    (hlt : r.base + r.size < 2 ^ 32) (hs : 1 ≤ size) (h : Place size align r p)
    (hfind : memblockFindInRange t size align memoryStart memoryLimit = p) :
    (memblockAlloc t size align).2 = (if pageEnd p size < r.base + r.size then p else 0) ∧
      covered (entries (memblockAlloc t size align).1) =
        covered (entries t) \ pageRange p size := by
  have hlimit : memoryLimit = 0x100000 := rfl
  have hstart : memoryStart = 0x10000 := rfl
  obtain ⟨h1, h2, h3, h4⟩ := place_pages (hw.aligned r hr) hs h
  have hend : pageEnd p size < 2 ^ 32 := by omega
  have hbelow : ∀ x ∈ entries t, x.base < pageEnd p size → x.base + x.size < 2 ^ 32 := by
    obtain ⟨A, B, hAB⟩ := List.append_of_mem hr
    have ho := hw.ordered
    rw [hAB] at ho ⊢
    obtain ⟨-, hoB, hbefore⟩ := ordered_append.mp ho
    obtain ⟨-, -, hafter, -⟩ := ordered_cons.mp hoB
    intro x hx hxe
    rcases List.mem_append.mp hx with hx | hx
    · have := hbefore x hx r List.mem_cons_self
      omega
    · rcases List.mem_cons.mp hx with rfl | hx
      · exact hlt
      · have := hafter x hx
        omega
  have hok : (memblockReserve t p size).2 = decide (pageEnd p size < r.base + r.size) := by
    have hres := delLoop_result (d := memblockInvld) (A := []) (by decide) h1 h2 h3 hlt rfl
      hw.ordered hr (length_entries t).le
    unfold memblockReserve memblockDelRegion
    simp only [adjust_eq hend]
    rw [List.length_nil] at hres
    rw [hres]
    have hinv : memblockInvld = 2 ^ 32 - 1 := rfl
    split_ifs with hlast
    · simp only [hlast, decide_true, bne_iff_ne]
      omega
    · simp [hlast]
  rw [alloc_some hfind (by have := h.ge; omega), hok]
  refine ⟨by simp, ?_⟩
  rw [reserve_carve hend hbelow]
  exact (carve_covered_iff h2.le).mpr (ordered_clears hw.ordered _ _)

lemma find_eq (hb : ∀ r ∈ entries t, r.base + r.size ≤ 2 ^ 32) (hk : k < 32) (hs : 1 ≤ size) :
    memblockFindInRange t size (2 ^ k) memoryStart memoryLimit =
      (((entries t).find? (Taken size (2 ^ k) ·)).map (lowest (2 ^ k))).getD 0 := by
  have h := findLoop_eq (A := []) (l := entries t) hk hs rfl hb
  rwa [length_entries] at h

/-- An allocation that finds nothing keeps the promise if there is nothing to find. -/
lemma keeps_none (ha : 0 < align)
    (h : memblockFindInRange t size align memoryStart memoryLimit = 0) :
    Keeps t size align ↔ ∀ r ∈ entries t, ¬ HasPlace size align r := by
  constructor
  · intro hk r hr hp
    have := hk.found.mpr ⟨r, hr, (hasPlace_iff ha).mp hp⟩
    rw [alloc_none h] at this
    exact this rfl
  · intro hno
    have hno' : ¬ ∃ r ∈ entries t, ∃ p, Place size align r p := by
      rintro ⟨r, hr, hp⟩
      exact hno r hr ((hasPlace_iff ha).mpr hp)
    refine ⟨?_, ?_, ?_, ?_, ?_, ?_⟩ <;> rw [alloc_none h]
    · exact iff_of_false (fun h => h rfl) hno'
    all_goals first
      | exact fun h => absurd rfl h
      | exact fun _ => rfl

/-- An allocation that finds a place in a region that ends before the address space does keeps
the promise exactly if the region goes on behind the place. -/
lemma keeps_some (hw : WellFormed (entries t)) (hr : r ∈ entries t)
    (hlt : r.base + r.size < 2 ^ 32) (hs : 1 ≤ size) (hp : Place size align r p)
    (hfind : memblockFindInRange t size align memoryStart memoryLimit = p) :
    Keeps t size align ↔ pageEnd p size < r.base + r.size := by
  obtain ⟨hret, hcov⟩ := alloc_place hw hr hlt hs hp hfind
  have h0 : p ≠ 0 := by
    have h1 := hp.ge
    have h2 : memoryStart = 0x10000 := rfl
    omega
  constructor
  · intro h
    by_contra hno
    rw [if_neg hno] at hret
    exact h.found.mpr ⟨r, hr, p, hp⟩ hret
  · intro hgo
    rw [if_pos hgo] at hret
    obtain ⟨h1, -, h3, -⟩ := place_pages (hw.aligned r hr) hs hp
    have hin : Set.Ico p (p + size) ⊆ pageRange p size := by
      intro a ha
      rw [Set.mem_Ico] at ha
      simp only [pageRange, pageBeg, pageEnd, pageSize, Set.mem_Ico]
      omega
    have hin' : pageRange p size ⊆ covered (entries t) := by
      intro a ha
      rw [pageRange, Set.mem_Ico] at ha
      exact ⟨r, hr, by rw [mem_addrs]; omega⟩
    refine ⟨?_, ?_, ?_, ?_, ?_, ?_⟩ <;> rw [hret]
    · exact iff_of_true h0 ⟨r, hr, p, hp⟩
    · exact fun _ => hp.aligned
    · exact fun _ => hin.trans hin'
    · intro _
      rw [hcov]
      exact Set.disjoint_sdiff_right.mono_left hin
    · intro _
      rw [hcov]
    · exact fun h => absurd h h0

/-- Nothing lies behind a region that ends with the address space. -/
lemma last_nil (hw : WellFormed (A ++ r :: B))
    (hb : ∀ y ∈ A ++ r :: B, y.base + y.size ≤ 2 ^ 32) (hlast : r.base + r.size = 2 ^ 32) :
    B = [] := by
  rcases B with _ | ⟨y, B⟩
  · rfl
  · have h1 := (ordered_cons.mp (ordered_append.mp hw.ordered).2.1).2.2.1 y List.mem_cons_self
    have h2 := hb y (by simp)
    have h3 := hw.nonempty y (by simp)
    omega

/-- **Allocation keeps its promise** exactly if the first region with a place goes on behind
it. Where the place reaches to the end of its region it is taken all the same, and the caller
gets nothing. -/
theorem keeps_iff (hw : WellFormed (entries t))
    (hb : ∀ r ∈ entries t, r.base + r.size ≤ 2 ^ 32) (hs : 1 ≤ size)
    (ha : ∃ k < 32, align = 2 ^ k) : Keeps t size align ↔ Roomy t size align := by
  obtain ⟨k, hk, rfl⟩ := ha
  have hpos := Nat.two_pow_pos k
  have hfind := find_eq hb hk hs
  unfold Roomy
  rcases hp : (entries t).find? (HasPlace size (2 ^ k) ·) with _ | r
  · -- there is no place
    have hno : ∀ r ∈ entries t, ¬ HasPlace size (2 ^ k) r := by simpa using hp
    have htaken : (entries t).find? (Taken size (2 ^ k) ·) = none := by
      simpa using fun r hr ht => hno r hr ht.1
    rw [htaken] at hfind
    exact iff_of_true ((keeps_none hpos hfind).mpr hno) (by simp)
  obtain ⟨hplace, A, B, hAB, hA⟩ := List.find?_eq_some_iff_append.mp hp
  have hplace : HasPlace size (2 ^ k) r := by simpa using hplace
  have hskip : A.find? (Taken size (2 ^ k) ·) = none := by
    simpa using fun x hx ht => by simpa [ht.1] using hA x hx
  have hmem : r ∈ entries t := by simp [hAB]
  have hroomy : (∀ s, some r = some s → pageEnd (lowest (2 ^ k) s) size < s.stop) ↔
      pageEnd (lowest (2 ^ k) r) size < r.stop := by simp
  rw [hroomy]
  rcases stop_eq (hb r hmem) with hstop | ⟨hstop, hlast⟩
  · -- the region ends before the address space does
    have hlt : r.base + r.size < 2 ^ 32 := hstop ▸ u32_lt _
    have hne : r.stop ≠ 0 := by
      have := hw.nonempty r hmem
      omega
    have htaken : (entries t).find? (Taken size (2 ^ k) ·) = some r := by
      rw [hAB, List.find?_append, hskip, Option.none_or,
        List.find?_cons_of_pos (by simpa using ⟨hplace, hne⟩)]
    rw [htaken] at hfind
    rw [hstop]
    exact keeps_some hw hmem hlt hs ⟨Nat.dvd_mul_left _ _, lowest_ge hpos r, hplace⟩ hfind
  · -- nothing is found in it, and it is the last one
    have hB : B = [] := last_nil (hAB ▸ hw) (hAB ▸ hb) hlast
    have htaken : (entries t).find? (Taken size (2 ^ k) ·) = none := by
      rw [hAB, List.find?_append, hskip, Option.none_or, hB,
        List.find?_cons_of_neg (by simp [Taken, hstop]), List.find?_nil]
    rw [htaken] at hfind
    rw [hstop]
    exact iff_of_false (fun h => (keeps_none hpos hfind).mp h r hmem hplace) (by simp)

open Elfboot.MemblockRuns

/-- Four pages. -/
abbrev fourPages : MemblockType := memblock.run start [.range (.add 0x10000 0x4000)]

lemma entries_fourPages : entries fourPages = [⟨0x10000, 0x4000⟩] := by decide +kernel

lemma wellFormed_fourPages : WellFormed (entries fourPages) := by
  rw [entries_fourPages]
  exact (ordered_cons.mpr ⟨by decide, by decide, by simp, ordered_nil⟩).wellFormed

theorem keeps_iff_page : Keeps fourPages 0x1000 0x1000 ↔ Roomy fourPages 0x1000 0x1000 :=
  keeps_iff wellFormed_fourPages (by rw [entries_fourPages]; decide) (by decide)
    ⟨12, by decide, rfl⟩

/-- All four pages at once: they are no longer there afterwards, and the result is null. -/
theorem not_keeps : ¬ ∀ t, Reach memblock t → WellFormed (entries t) →
    t.cnt < memblockMaxRegions → ∀ size align, 1 ≤ size → (∃ k < 32, align = 2 ^ k) →
      Keeps t size align := by
  intro h
  have hr : Reach memblock fourPages := Reach.run (.init ⟨_, rfl⟩) (by decide +kernel)
  have h1 := h _ hr wellFormed_fourPages (by decide +kernel) 0x4000 0x1000 (by decide)
    ⟨12, by decide, rfl⟩
  have h2 := h1.found.mpr ⟨⟨0x10000, 0x4000⟩, by rw [entries_fourPages]; simp, 0x10000,
    by decide, by decide, by decide⟩
  exact h2 (by decide +kernel)

end Elfboot.MemblockAlloc
