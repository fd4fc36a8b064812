import Elfboot.ModuleImage

/-!
Which relocations of an image are applied.

An entry is read when its turn comes, in the memory that the entries before it leave. The
entries of an image are the ones that would have their turn if the loops left out nothing.
-/

namespace Elfboot.ModuleReloc

open Elfboot.Errno Elfboot.Buffer Elfboot.Word Elfboot.Loop Elfboot.ModuleImage

/-- An entry of a relocation section. -/
structure Entry where
  shndx : ℕ
  ndx : ℕ
  type : ℕ

/-- A type that is not one of the two leaves a module half relocated. -/
def Entry.Supported (e : Entry) : Prop := e.type = r38632 ∨ e.type = r386Pc32

instance (e : Entry) : Decidable e.Supported := inferInstanceAs (Decidable (_ ∨ _))

/-- A section that the loop does not skip. -/
def Considered (mem : Bytes) (ehdr shndx : ℕ) : Prop :=
  shInfo mem (libelf32Shdr mem ehdr shndx) < eShnum mem ehdr ∧
    shFlags mem (libelf32Shdr mem ehdr shndx) &&& shfRelaLivepatch = 0

instance (mem : Bytes) (ehdr shndx : ℕ) : Decidable (Considered mem ehdr shndx) :=
  inferInstanceAs (Decidable (_ ∧ _))

/-- The entries of a section from `ndx` on, and the memory they leave. -/
def sectionEntries (mod : Module) (shndx shdr rel : ℕ) : ℕ → ℕ → Bytes → List Entry × Bytes
  | 0, _, mem => ([], mem)
  | k + 1, ndx, mem =>
    if ndx < shSize mem shdr / sizeofRel then
      let entry := rel + sizeofRel * ndx
      let rest := sectionEntries mod shndx shdr rel k (ndx + 1)
        ((relocate mod mem shdr entry).getD mem)
      (⟨shndx, ndx, elf32RType (rInfo mem entry)⟩ :: rest.1, rest.2)
    else ([], mem)

/-- The entries of the sections from `shndx` on, and the memory they leave. -/
def entriesFrom (mod : Module) : ℕ → ℕ → Bytes → List Entry × Bytes
  | 0, _, mem => ([], mem)
  | k + 1, shndx, mem =>
    if shndx < eShnum mem mod.ehdr then
      let shdr := libelf32Shdr mem mod.ehdr shndx
      if Considered mem mod.ehdr shndx ∧ shType mem shdr = shtRel then
        let here := sectionEntries mod shndx shdr (shAddr mem shdr) (2 ^ 29) 0 mem
        let rest := entriesFrom mod k (shndx + 1) here.2
        (here.1 ++ rest.1, rest.2)
      else entriesFrom mod k (shndx + 1) mem
    else ([], mem)

/-- The entries of an image, in their order. -/
def entries (mod : Module) (mem : Bytes) : List Entry := (entriesFrom mod (2 ^ 16) 1 mem).1

/-- The memory in which the entries of an image have all been relocated. -/
def relocated (mod : Module) (mem : Bytes) : Bytes := (entriesFrom mod (2 ^ 16) 1 mem).2

variable {mod : Module} {mem : Bytes} {s s' : State} {k shndx shdr rel ndx : ℕ} {ret : ℤ}

/-- The places of entries, as the state records them. -/
def places (es : List Entry) : List (ℕ × ℕ) := es.map fun e => (e.shndx, e.ndx)

lemma places_append (es es' : List Entry) : places (es ++ es') = places es ++ places es' :=
  List.map_append

lemma mem_places {es : List Entry} {e : Entry} (h : e ∈ es) : (e.shndx, e.ndx) ∈ places es :=
  List.mem_map_of_mem h

lemma sectionEntries_nil (h : (sectionEntries mod shndx shdr rel k ndx mem).1 = []) :
    (sectionEntries mod shndx shdr rel k ndx mem).2 = mem := by
  cases k with
  | zero => rfl
  | succ k =>
    rw [sectionEntries] at h ⊢
    split_ifs at h ⊢
    rfl

lemma entriesFrom_end (h : ¬ shndx < eShnum mem mod.ehdr) :
    entriesFrom mod (k + 1) shndx mem = ([], mem) := by
  rw [entriesFrom, if_neg h]

lemma entriesFrom_skip (h : shndx < eShnum mem mod.ehdr)
    (hno : ¬ (Considered mem mod.ehdr shndx ∧
      shType mem (libelf32Shdr mem mod.ehdr shndx) = shtRel)) :
    entriesFrom mod (k + 1) shndx mem = entriesFrom mod k (shndx + 1) mem := by
  rw [entriesFrom, if_pos h]
  dsimp only
  rw [if_neg hno]

lemma entriesFrom_rel (h : shndx < eShnum mem mod.ehdr)
    (hrel : Considered mem mod.ehdr shndx ∧
      shType mem (libelf32Shdr mem mod.ehdr shndx) = shtRel)
    (hshdr : shdr = libelf32Shdr mem mod.ehdr shndx) {here : List Entry × Bytes}
    (hhere : here = sectionEntries mod shndx shdr (shAddr mem shdr) (2 ^ 29) 0 mem) :
    entriesFrom mod (k + 1) shndx mem = (here.1 ++ (entriesFrom mod k (shndx + 1) here.2).1,
      (entriesFrom mod k (shndx + 1) here.2).2) := by
  subst hshdr hhere
  rw [entriesFrom, if_pos h]
  dsimp only
  rw [if_pos hrel]

/-- Where there is nothing to apply, the memory stays as it is. -/
lemma entriesFrom_nil (h : (entriesFrom mod k shndx mem).1 = []) :
    (entriesFrom mod k shndx mem).2 = mem := by
  induction k generalizing shndx with
  | zero => rfl
  | succ k ih =>
    by_cases hlt : shndx < eShnum mem mod.ehdr
    · by_cases hrel : Considered mem mod.ehdr shndx ∧
          shType mem (libelf32Shdr mem mod.ehdr shndx) = shtRel
      · obtain ⟨here, hhere⟩ : ∃ here, here = sectionEntries mod shndx
            (libelf32Shdr mem mod.ehdr shndx)
            (shAddr mem (libelf32Shdr mem mod.ehdr shndx)) (2 ^ 29) 0 mem := ⟨_, rfl⟩
        rw [entriesFrom_rel hlt hrel rfl hhere] at h ⊢
        dsimp only at h ⊢
        obtain ⟨hnil, hrest⟩ := List.append_eq_nil_iff.mp h
        have hmem : here.2 = mem := by
          rw [hhere] at hnil ⊢
          exact sectionEntries_nil hnil
        rw [hmem] at hrest ⊢
        exact ih hrest
      · rw [entriesFrom_skip hlt hrel] at h ⊢
        exact ih h
    · rw [entriesFrom_end hlt]

/-! ### One section -/

lemma relocate_isSome (h : elf32RType (rInfo mem rel) = r38632 ∨
    elf32RType (rInfo mem rel) = r386Pc32) : ∃ mem', relocate mod mem shdr rel = some mem' := by
  unfold relocate
  dsimp only
  split_ifs with h1 h2
  · exact ⟨_, rfl⟩
  · exact ⟨_, rfl⟩
  · exact absurd h (by tauto)

lemma shSize_turns (mem : Bytes) (shdr : ℕ) : shSize mem shdr / sizeofRel < 2 ^ 29 := by
  have := le32_lt mem (u32 (shdr + 20))
  unfold shSize sizeofRel
  omega

/-- The loop over a section ends. It calls nothing, and where all entries are supported it
applies all of them. -/
lemma applyLoop_spec (hk : 2 ^ 29 ≤ ndx + k) (hlt : ndx < 2 ^ 29) : ∃ ret s',
    loop (applyTurn mod shndx shdr rel) k (ndx, s) = some (ret, s') ∧ s'.called = s.called ∧
      ((∀ e ∈ (sectionEntries mod shndx shdr rel k ndx s.mem).1, e.Supported) → ret = 0 ∧
        s'.mem = (sectionEntries mod shndx shdr rel k ndx s.mem).2 ∧
        s'.applied = s.applied ++ places (sectionEntries mod shndx shdr rel k ndx s.mem).1) := by
  induction k generalizing ndx s with
  | zero => omega
  | succ k ih =>
    rw [sectionEntries]
    by_cases hturn : ndx < shSize s.mem shdr / sizeofRel
    · rw [if_pos hturn]
      dsimp only
      cases hr : relocate mod s.mem shdr (rel + sizeofRel * ndx) with
      | none =>
        have hleave : applyTurn mod shndx shdr rel (ndx, s) = some (.leave (-enoexec, s)) := by
          rw [applyTurn, if_pos hturn, hr]
        refine ⟨_, s, loop_leave hleave, rfl, fun hsup => ?_⟩
        obtain ⟨mem', hmem⟩ := @relocate_isSome mod _ shdr _ (hsup _ List.mem_cons_self)
        rw [hr] at hmem
        cases hmem
      | some mem' =>
        have hnext : applyTurn mod shndx shdr rel (ndx, s) = some (.next (ndx + 1,
            { s with mem := mem', applied := s.applied ++ [(shndx, ndx)] })) := by
          rw [applyTurn, if_pos hturn, hr]
        have hsize := shSize_turns s.mem shdr
        obtain ⟨ret, s', heq, hcalled, hall⟩ := @ih
          { s with mem := mem', applied := s.applied ++ [(shndx, ndx)] } (ndx + 1) (by omega)
          (by omega)
        refine ⟨ret, s', (loop_next hnext).trans heq, hcalled, fun hsup => ?_⟩
        rw [List.forall_mem_cons] at hsup
        obtain ⟨hret, hmem, happ⟩ := hall hsup.2
        refine ⟨hret, hmem, ?_⟩
        rw [happ, List.append_assoc]
        rfl
    · rw [if_neg hturn]
      have hleave : applyTurn mod shndx shdr rel (ndx, s) = some (.leave (0, s)) := by
        rw [applyTurn, if_neg hturn]
      exact ⟨0, s, loop_leave hleave, rfl, fun _ => ⟨rfl, rfl, (List.append_nil _).symm⟩⟩

/-- What `module_apply_relocate` does to a section. -/
lemma moduleApplyRelocate_spec (mod : Module) (shndx shdr : ℕ) (s : State) : ∃ ret s',
    moduleApplyRelocate mod shndx shdr s = some (ret, s') ∧ s'.called = s.called ∧
      ((∀ e ∈ (sectionEntries mod shndx shdr (shAddr s.mem shdr) (2 ^ 29) 0 s.mem).1,
          e.Supported) → ret = 0 ∧
        s'.mem = (sectionEntries mod shndx shdr (shAddr s.mem shdr) (2 ^ 29) 0 s.mem).2 ∧
        s'.applied = s.applied ++
          places (sectionEntries mod shndx shdr (shAddr s.mem shdr) (2 ^ 29) 0 s.mem).1) :=
  applyLoop_spec (Nat.zero_add _).ge (by decide)

/-! ### The sections -/

lemma resolveTurn_end (h : ¬ shndx < eShnum s.mem mod.ehdr) :
    resolveTurn mod (shndx, ret, s) = some (.leave (0, s)) := by
  rw [resolveTurn, if_neg h]

lemma resolveTurn_skip (h : shndx < eShnum s.mem mod.ehdr)
    (hc : ¬ Considered s.mem mod.ehdr shndx) :
    resolveTurn mod (shndx, ret, s) = some (.next (shndx + 1, ret, s)) := by
  rw [resolveTurn, if_pos h]
  dsimp only
  by_cases hinfo : eShnum s.mem mod.ehdr ≤ shInfo s.mem (libelf32Shdr s.mem mod.ehdr shndx)
  · rw [if_pos hinfo]
  · rw [if_neg hinfo, if_pos fun hflags => hc ⟨not_le.mp hinfo, hflags⟩]

/-- What a section does that is not skipped: the local is what applying it gives, if its
entries are applied. -/
def applied (mod : Module) (shndx : ℕ) (ret : ℤ) (s : State) : Option (ℤ × State) :=
  if shType s.mem (libelf32Shdr s.mem mod.ehdr shndx) = shtRel then
    moduleApplyRelocate mod shndx (libelf32Shdr s.mem mod.ehdr shndx) s
  else some (ret, s)

lemma resolveTurn_considered {ret' : ℤ} (h : shndx < eShnum s.mem mod.ehdr)
    (hc : Considered s.mem mod.ehdr shndx) (heq : applied mod shndx ret s = some (ret', s')) :
    resolveTurn mod (shndx, ret, s) =
      if ret' ≠ 0 then some (.leave (0, s')) else some (.next (shndx + 1, ret', s')) := by
  unfold applied at heq
  rw [resolveTurn, if_pos h]
  dsimp only
  rw [if_neg (not_le.mpr hc.1), if_neg (not_not.mpr hc.2), heq]

lemma applied_some (mod : Module) (shndx : ℕ) (ret : ℤ) (s : State) :
    ∃ ret' s', applied mod shndx ret s = some (ret', s') ∧ s'.called = s.called := by
  unfold applied
  split
  · obtain ⟨ret', s', h1, h2, -⟩ := moduleApplyRelocate_spec mod shndx
      (libelf32Shdr s.mem mod.ehdr shndx) s
    exact ⟨ret', s', h1, h2⟩
  · exact ⟨ret, s, rfl, rfl⟩

/-- **The result** is zero, for every image and whatever the local holds. -/
theorem resolveRelocations_zero (mod : Module) (ret : ℤ) (s : State) :
    ∃ r, moduleResolveRelocations mod ret s = some r ∧ r.1 = 0 ∧ r.2.called = s.called := by
  refine loop_total (I := fun t : ℕ × ℤ × State => t.1 ≤ 2 ^ 16 ∧ t.2.2.called = s.called)
    (P := fun r : ℤ × State => r.1 = 0 ∧ r.2.called = s.called) (fun t => 2 ^ 16 - t.1) ?_
    ⟨show 1 ≤ 2 ^ 16 by decide, rfl⟩ (show 2 ^ 16 - 1 < 2 ^ 16 by decide)
  rintro ⟨shndx, ret, s1⟩ ⟨hle, hcalled⟩
  dsimp only at hle hcalled ⊢
  by_cases hlt : shndx < eShnum s1.mem mod.ehdr
  · have hnum := le16_lt s1.mem (u32 (mod.ehdr + 48))
    have hlt16 : shndx + 1 ≤ 2 ^ 16 := by
      unfold eShnum at hlt
      omega
    have hnext : ∀ (ret : ℤ) (s2 : State), s2.called = s.called →
        ((shndx + 1, ret, s2).1 ≤ 2 ^ 16 ∧ (shndx + 1, ret, s2).2.2.called = s.called) ∧
          2 ^ 16 - (shndx + 1, ret, s2).1 < 2 ^ 16 - shndx :=
      fun ret s2 h => ⟨⟨hlt16, h⟩, by dsimp only; omega⟩
    by_cases hc : Considered s1.mem mod.ehdr shndx
    · obtain ⟨ret', s2, heq, hcalled2⟩ := applied_some mod shndx ret s1
      have hturn := resolveTurn_considered hlt hc heq
      by_cases hret : ret' = 0
      · rw [if_neg (not_not.mpr hret)] at hturn
        exact .inr ⟨_, hturn, hnext ret' s2 (hcalled2.trans hcalled)⟩
      · rw [if_pos hret] at hturn
        exact .inl ⟨_, hturn, rfl, hcalled2.trans hcalled⟩
    · exact .inr ⟨_, resolveTurn_skip hlt hc, hnext ret s1 hcalled⟩
  · exact .inl ⟨_, resolveTurn_end hlt, rfl, hcalled⟩

/-- With nothing left in the local, the loop goes through all the sections. -/
lemma resolveLoop_zero (hsup : ∀ e ∈ (entriesFrom mod k shndx s.mem).1, e.Supported)
    (hk : 2 ^ 16 ≤ shndx + k) (hle : shndx < 2 ^ 16) : ∃ s',
    loop (resolveTurn mod) k (shndx, 0, s) = some (0, s') ∧
      s'.mem = (entriesFrom mod k shndx s.mem).2 ∧
      s'.applied = s.applied ++ places (entriesFrom mod k shndx s.mem).1 := by
  induction k generalizing shndx s with
  | zero => omega
  | succ k ih =>
    by_cases hlt : shndx < eShnum s.mem mod.ehdr
    · have hnum := le16_lt s.mem (u32 (mod.ehdr + 48))
      have hlt16 : shndx + 1 < 2 ^ 16 := by
        unfold eShnum at hlt
        omega
      by_cases hc : Considered s.mem mod.ehdr shndx
      · by_cases hrel : shType s.mem (libelf32Shdr s.mem mod.ehdr shndx) = shtRel
        · obtain ⟨here, hhere⟩ : ∃ here, here = sectionEntries mod shndx
              (libelf32Shdr s.mem mod.ehdr shndx)
              (shAddr s.mem (libelf32Shdr s.mem mod.ehdr shndx)) (2 ^ 29) 0 s.mem := ⟨_, rfl⟩
          obtain ⟨ret, s1, heq, -, hall⟩ := moduleApplyRelocate_spec mod shndx
            (libelf32Shdr s.mem mod.ehdr shndx) s
          rw [entriesFrom_rel hlt ⟨hc, hrel⟩ rfl hhere] at hsup ⊢
          rw [← hhere] at hall
          dsimp only at hsup ⊢
          obtain ⟨rfl, hmem, happ⟩ := hall fun e he => hsup e (List.mem_append_left _ he)
          rw [← hmem] at hsup ⊢
          obtain ⟨s', hloop, hmem', hs'⟩ := @ih s1 (shndx + 1)
            (fun e he => hsup e (List.mem_append_right _ he)) (by omega) hlt16
          have happlied : applied mod shndx 0 s = some (0, s1) := by rw [applied, if_pos hrel, heq]
          have hturn := resolveTurn_considered hlt hc happlied
          rw [if_neg (not_not.mpr rfl)] at hturn
          refine ⟨s', (loop_next hturn).trans hloop, hmem', ?_⟩
          rw [hs', happ, places_append, List.append_assoc]
        · rw [entriesFrom_skip hlt fun h => hrel h.2] at hsup ⊢
          have happlied : applied mod shndx 0 s = some (0, s) := by rw [applied, if_neg hrel]
          have hturn := resolveTurn_considered hlt hc happlied
          rw [if_neg (not_not.mpr rfl)] at hturn
          obtain ⟨s', hloop, hs'⟩ := ih hsup (by omega) hlt16
          exact ⟨s', (loop_next hturn).trans hloop, hs'⟩
      · rw [entriesFrom_skip hlt fun h => hc h.1] at hsup ⊢
        obtain ⟨s', hloop, hs'⟩ := ih hsup (by omega) hlt16
        exact ⟨s', (loop_next (resolveTurn_skip hlt hc)).trans hloop, hs'⟩
    · rw [entriesFrom_end hlt]
      exact ⟨s, loop_leave (resolveTurn_end hlt), rfl, (List.append_nil _).symm⟩

/-- The first section that is not skipped, if there is one, holds relocations. -/
def FirstIsRel (mem : Bytes) (ehdr shndx : ℕ) : Prop :=
  ∀ i, shndx ≤ i → i < eShnum mem ehdr → Considered mem ehdr i →
    (∀ j, shndx ≤ j → j < i → ¬ Considered mem ehdr j) →
      shType mem (libelf32Shdr mem ehdr i) = shtRel

lemma firstIsRel_skip (hc : ¬ Considered mem k shndx) :
    FirstIsRel mem k shndx ↔ FirstIsRel mem k (shndx + 1) := by
  constructor
  · intro h i hi hlt hi' hfirst
    refine h i (by omega) hlt hi' fun j hj hji => ?_
    rcases Nat.eq_or_lt_of_le hj with rfl | hj
    · exact hc
    · exact hfirst j hj hji
  · intro h i hi hlt hi' hfirst
    have hne : shndx ≠ i := by
      rintro rfl
      exact hc hi'
    exact h i (by omega) hlt hi' fun j hj hji => hfirst j (by omega) hji

lemma firstIsRel_considered (hlt : shndx < eShnum mem k) (hc : Considered mem k shndx) :
    FirstIsRel mem k shndx ↔ shType mem (libelf32Shdr mem k shndx) = shtRel := by
  constructor
  · intro h
    exact h shndx le_rfl hlt hc fun j hj hji => absurd hji (not_lt.mpr hj)
  · intro h i hi _ _ hfirst
    rcases Nat.eq_or_lt_of_le hi with rfl | hi
    · exact h
    · exact absurd hc (hfirst shndx le_rfl hi)

/-- Something left in the local ends the loop at the first section that is not skipped, unless
that section overwrites it. -/
lemma resolveLoop_nonzero (hret : ret ≠ 0)
    (hsup : ∀ e ∈ (entriesFrom mod k shndx s.mem).1, e.Supported) (happ : s.applied = [])
    (hk : 2 ^ 16 ≤ shndx + k) (hle : shndx < 2 ^ 16) : ∃ s',
    loop (resolveTurn mod) k (shndx, ret, s) = some (0, s') ∧
      ((s'.mem = (entriesFrom mod k shndx s.mem).2 ∧
          ∀ e ∈ (entriesFrom mod k shndx s.mem).1, (e.shndx, e.ndx) ∈ s'.applied) ↔
        FirstIsRel s.mem mod.ehdr shndx ∨ (entriesFrom mod k shndx s.mem).1 = []) := by
  induction k generalizing shndx with
  | zero => omega
  | succ k ih =>
    by_cases hlt : shndx < eShnum s.mem mod.ehdr
    · have hnum := le16_lt s.mem (u32 (mod.ehdr + 48))
      have hlt16 : shndx + 1 < 2 ^ 16 := by
        unfold eShnum at hlt
        omega
      by_cases hc : Considered s.mem mod.ehdr shndx
      · by_cases hrel : shType s.mem (libelf32Shdr s.mem mod.ehdr shndx) = shtRel
        · -- the local is overwritten, and the loop is the one that starts with zero
          obtain ⟨s', hloop, hmem, hs'⟩ := resolveLoop_zero hsup hk hle
          obtain ⟨ret', s1, heq, -⟩ := applied_some mod shndx 0 s
          have heq' : applied mod shndx ret s = some (ret', s1) := by
            rw [← heq, applied, applied, if_pos hrel, if_pos hrel]
          have hsame : loop (resolveTurn mod) (k + 1) (shndx, ret, s) =
              loop (resolveTurn mod) (k + 1) (shndx, 0, s) := by
            rw [loop, loop, resolveTurn_considered hlt hc heq, resolveTurn_considered hlt hc heq']
          refine ⟨s', hsame.trans hloop, ?_⟩
          rw [firstIsRel_considered hlt hc, hs', happ]
          exact ⟨fun _ => .inl hrel, fun _ => ⟨hmem, fun e he => mem_places he⟩⟩
        · have hturn := resolveTurn_considered hlt hc
            (show applied mod shndx ret s = some (ret, s) by rw [applied, if_neg hrel])
          rw [if_pos hret] at hturn
          refine ⟨s, loop_leave hturn, ?_⟩
          rw [firstIsRel_considered hlt hc, or_iff_right hrel, happ]
          constructor
          · intro h
            rw [List.eq_nil_iff_forall_not_mem]
            exact fun e he => List.not_mem_nil (h.2 e he)
          · intro h
            exact ⟨(entriesFrom_nil h).symm, by simp [h]⟩
      · rw [entriesFrom_skip hlt fun h => hc h.1] at hsup ⊢
        rw [firstIsRel_skip hc]
        obtain ⟨s', hloop, hs'⟩ := ih hsup (by omega) hlt16
        exact ⟨s', (loop_next (resolveTurn_skip hlt hc)).trans hloop, hs'⟩
    · rw [entriesFrom_end hlt]
      exact ⟨s, loop_leave (resolveTurn_end hlt), by simp⟩

/-! ### Images -/

/-- A module is only started when it is fully relocated: a result of zero means that every
entry has been applied and has left its mark on the memory, and an entry that is not supported
gives another one, so that the module's function is not called. `ret` is what the local holds. -/
def Relocates (mod : Module) (mem : Bytes) (ret : ℤ) : Prop :=
  ∃ r s, moduleResolveRelocations mod ret ⟨mem, [], []⟩ = some (r, s) ∧
    (r = 0 → s.mem = relocated mod mem ∧
      ∀ e ∈ entries mod mem, (e.shndx, e.ndx) ∈ s.applied) ∧
    ((∃ e ∈ entries mod mem, ¬ e.Supported) → r ≠ 0 ∧ ∀ init r' s',
      moduleReadFileResolved mod init ret ⟨mem, [], []⟩ = some (r', s') → s'.called = [])

/-- **Relocating** does what it is to do exactly for the images all of whose entries are
supported, and of these only where the local holds zero, or is overwritten at the first section
that is not skipped, or there is nothing to apply. -/
theorem relocates_iff (mod : Module) (mem : Bytes) (ret : ℤ) :
    Relocates mod mem ret ↔ (∀ e ∈ entries mod mem, e.Supported) ∧
      (ret = 0 ∨ FirstIsRel mem mod.ehdr 1 ∨ entries mod mem = []) := by
  constructor
  · rintro ⟨r, s, heq, happ, hunsup⟩
    obtain ⟨⟨r', s'⟩, heq', rfl, -⟩ := resolveRelocations_zero mod ret ⟨mem, [], []⟩
    obtain ⟨rfl, rfl⟩ := Prod.mk.inj (Option.some.inj (heq.symm.trans heq'))
    have hsup : ∀ e ∈ entries mod mem, e.Supported := by
      intro e he
      by_contra hno
      exact (hunsup ⟨e, he, hno⟩).1 rfl
    refine ⟨hsup, ?_⟩
    by_cases hret : ret = 0
    · exact .inl hret
    · obtain ⟨s', hloop, hiff⟩ := resolveLoop_nonzero (s := ⟨mem, [], []⟩) hret hsup rfl
        (by decide) (by decide)
      obtain ⟨-, rfl⟩ := Prod.mk.inj (Option.some.inj (heq.symm.trans hloop))
      exact .inr (hiff.mp (happ rfl))
  · rintro ⟨hsup, hcond⟩
    have hvac : ∀ {P : Prop}, (∃ e ∈ entries mod mem, ¬ e.Supported) → P := by
      rintro P ⟨e, he, hno⟩
      exact absurd (hsup e he) hno
    by_cases hret : ret = 0
    · subst hret
      obtain ⟨s', hloop, hmem, hs'⟩ := resolveLoop_zero (s := ⟨mem, [], []⟩) hsup (by decide)
        (by decide)
      refine ⟨0, s', hloop, fun _ => ⟨hmem, fun e he => ?_⟩, hvac⟩
      rw [hs']
      exact mem_places he
    · obtain ⟨s', hloop, hiff⟩ := resolveLoop_nonzero (s := ⟨mem, [], []⟩) hret hsup rfl
        (by decide) (by decide)
      exact ⟨0, s', hloop, fun _ => hiff.mpr (hcond.resolve_left hret), hvac⟩

/-- An image with one section, which has one entry of a type that is not supported. -/
def unsupportedImage : Bytes := fun a =>
  if a = 32 then 52 else if a = 48 then 2 else if a = 96 then 9
  else if a = 104 then 132 else if a = 112 then 8 else if a = 136 then 3 else 0

theorem not_relocates :
    ¬ Relocates ⟨0, 52, 0, 0, 0, 0, 0⟩ unsupportedImage 0 := by
  rintro ⟨r, s, heq, -, hunsup⟩
  obtain ⟨⟨r', s'⟩, heq', rfl, -⟩ := resolveRelocations_zero ⟨0, 52, 0, 0, 0, 0, 0⟩ 0
    ⟨unsupportedImage, [], []⟩
  obtain ⟨rfl, -⟩ := Prod.mk.inj (Option.some.inj (heq.symm.trans heq'))
  exact (hunsup (by decide +kernel)).1 rfl

end Elfboot.ModuleReloc
