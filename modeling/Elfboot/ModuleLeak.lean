import Elfboot.ModuleLoad

/-!
What a module that cannot be loaded leaves behind.
-/

namespace Elfboot.ModuleLeak

open Elfboot.Errno Elfboot.Loop Elfboot.Checked Elfboot.Buffer Elfboot.Str Elfboot.ModuleLoad
open Elfboot.ModuleImage (Module)

/-- Nothing is left since `s`: what has been obtained has been freed once, and the list of modules
is the same. -/
structure Clean (s s' : State) : Prop where
  freed : ∀ i ∈ s'.obtained, s.calls ≤ i → s'.freed.count i = s.freed.count i + 1
  modules : s'.modules = s.modules

/-- A file cannot be opened: there is no memory for it, there is no such file, or there is no
memory for its name. -/
def NotOpened (env : Env) (path : List UInt8) (s : State) : Prop :=
  env.bmalloc s.calls sizeofFile = 0 ∨
    ∀ node ∈ env.vfsOpen path, env.bmalloc (s.calls + 1) (node.name.length + 1) = 0

variable {env : Env} {mod : Module} {s s' s'' : State} {k object : ℕ} {old : Old} {file : File}

/-- Since `s` nothing has been freed, and no module listed. -/
structure Holds (s s' : State) : Prop where
  calls : s.calls ≤ s'.calls
  obtained : ∀ i ∈ s.obtained, i ∈ s'.obtained
  freed : s'.freed = s.freed
  modules : s'.modules = s.modules

/-- Since `s` only later objects have been freed, and after an error no module is listed. -/
structure After (s : State) (r : ℤ × State) : Prop where
  obtained : ∀ i ∈ s.obtained, i ∈ r.2.obtained
  freed : ∀ i < s.calls, r.2.freed.count i = s.freed.count i
  modules : r.1 ≠ 0 → r.2.modules = s.modules

lemma Holds.refl (s : State) : Holds s s := ⟨le_rfl, fun _ h => h, rfl, rfl⟩

lemma Holds.trans (h : Holds s s') (h' : Holds s' s'') : Holds s s'' :=
  ⟨h.calls.trans h'.calls, fun i hi => h'.obtained i (h.obtained i hi), h'.freed.trans h.freed,
    h'.modules.trans h.modules⟩

lemma holds_bmalloc (env : Env) (s : State) (size : ℕ) : Holds s (bmalloc env s size).2 := by
  refine ⟨Nat.le_succ _, fun i hi => ?_, rfl, rfl⟩
  unfold bmalloc
  dsimp only
  split_ifs
  · exact hi
  · exact List.mem_append_left _ hi

lemma obtained_none {size : ℕ} (h : (bmalloc env s size).1 = 0) :
    (bmalloc env s size).2.obtained = s.obtained := by
  unfold bmalloc at h ⊢
  exact if_pos h

lemma obtained_some {size : ℕ} (h : (bmalloc env s size).1 ≠ 0) :
    (bmalloc env s size).2.obtained = s.obtained ++ [s.calls] := by
  unfold bmalloc at h ⊢
  exact if_neg h

/-! ### The image -/

lemma loadTurn_holds (t : ℕ × State) : Yields (loadTurn env mod t)
    (Keeps (fun t' => Holds t.2 t'.2) fun r => Holds t.2 r.2) := by
  obtain ⟨shndx, s⟩ := t
  refine Yields.after fun shnum => ?_
  split_ifs
  · refine Yields.after fun shdr => Yields.after fun type => ?_
    split_ifs
    · refine Yields.after fun size => ?_
      have hold := holds_bmalloc env s size
      dsimp only
      split_ifs
      · exact yields_pure ⟨hold.calls, hold.obtained, hold.freed, hold.modules⟩
      · exact yields_pure ⟨hold.calls, hold.obtained, hold.freed, hold.modules⟩
    · exact Yields.after fun offset => yields_pure ⟨le_rfl, fun _ h => h, rfl, rfl⟩
  · exact yields_pure (Holds.refl s)

lemma moduleLoadSections_holds :
    Yields (moduleLoadSections env mod s) fun r => Holds s r.2 := by
  refine yields_run (I := fun t => Holds s t.2) (fun t ht r hr => ?_) (Holds.refl s)
  have hturn := loadTurn_holds t r hr
  cases r with
  | next t' => exact ht.trans hturn
  | leave r => exact ht.trans hturn

lemma modulePrepare_holds : Yields (modulePrepare env k mod s) fun r => Holds s r.2.2 := by
  refine Yields.after fun r => ?_
  obtain ⟨ret, mod⟩ := r
  dsimp only
  split_ifs
  · exact yields_pure (Holds.refl s)
  · refine moduleLoadSections_holds.bind fun r hr => ?_
    obtain ⟨ret, s⟩ := r
    dsimp only
    split_ifs
    · exact yields_pure hr
    · refine Yields.after fun r => ?_
      obtain ⟨ret, mem⟩ := r
      dsimp only
      split_ifs
      · exact yields_pure ⟨hr.calls, hr.obtained, hr.freed, hr.modules⟩
      · exact Yields.after fun r => yields_pure ⟨hr.calls, hr.obtained, hr.freed, hr.modules⟩

lemma Holds.after (h : Holds s s') (ret : ℤ) : After s (ret, s') :=
  ⟨h.obtained, fun _ _ => h.freed ▸ rfl, fun _ => h.modules⟩

lemma Holds.trans_after {r : ℤ × State} (h : Holds s s') (h' : After s' r) : After s r :=
  ⟨fun i hi => h'.obtained i (h.obtained i hi),
    fun i hi => (h'.freed i (hi.trans_le h.calls)).trans (h.freed ▸ rfl),
    fun hret => (h'.modules hret).trans h.modules⟩

/-- A later object is freed. -/
lemma After.freeLater {ret ret' : ℤ} (h : After s (ret, s')) (hret : ret ≠ 0)
    (hobject : s.calls ≤ object) : After s (ret', bfree s' object) := by
  refine ⟨h.obtained, fun i hi => ?_, fun _ => h.modules hret⟩
  have hne : object ≠ i := by omega
  rw [← h.freed i hi]
  unfold ModuleLoad.bfree
  rw [List.count_append, List.count_singleton, if_neg (by simpa using hne), Nat.add_zero]

/-- A module is listed only where its function has been called and succeeded. -/
lemma moduleInitialize_after : Yields (moduleInitialize env mod object s) (After s) := by
  refine Yields.after fun initSym => Yields.after fun exitSym => Yields.after fun init =>
    Yields.after fun exit => ?_
  by_cases hnull : init = 0 ∨ exit = 0
  · rw [if_pos hnull]
    exact yields_pure ((Holds.refl s).after _)
  · rw [if_neg hnull]
    dsimp only
    by_cases hinit : env.init init ≠ 0
    · rw [if_pos hinit]
      exact yields_pure ⟨fun _ h => h, fun _ _ => rfl, fun _ => rfl⟩
    · rw [if_neg hinit]
      exact yields_pure ⟨fun _ h => h, fun _ _ => rfl, fun h => absurd rfl h⟩

/-! ### The file -/

/-- The image and the module are freed. -/
lemma After.free {ret : ℤ} (h : After s (ret, s')) (hret : ret ≠ 0) :
    After s (-efault, bfree (bfree s' (s.calls + 1)) s.calls) :=
  (h.freeLater hret (Nat.le_succ _) : After s (-efault, _)).freeLater (by decide) le_rfl

lemma moduleReadFile_after : Yields (moduleReadFile env k old file s) (After s) := by
  have h1 := holds_bmalloc env s sizeofModule
  have h2 := h1.trans (holds_bmalloc env _ file.length)
  unfold moduleReadFile
  dsimp only
  by_cases hmod : (bmalloc env s sizeofModule).1 = 0
  · rw [if_pos hmod]
    exact yields_pure (h1.after _)
  rw [if_neg hmod]
  by_cases hbuf : (bmalloc env (bmalloc env s sizeofModule).2 file.length).1 = 0
  · rw [if_pos hbuf]
    exact yields_pure ((h2.after (-1)).freeLater (by decide) le_rfl)
  rw [if_neg hbuf]
  set s₂ := (bmalloc env (bmalloc env s sizeofModule).2 file.length).2
  set read := fileRead env s₂.mem file file.length _
  have h3 : Holds s { s₂ with mem := read.2 } := ⟨h2.calls, h2.obtained, h2.freed, h2.modules⟩
  by_cases hread : read.1 = 0
  · rw [if_pos hread]
    exact yields_pure ((h3.after (-1)).free (by decide))
  rw [if_neg hread]
  refine modulePrepare_holds.bind fun r hr => ?_
  obtain ⟨ret, mod, s'⟩ := r
  have h4 := h3.trans hr
  dsimp only
  split_ifs with hret
  · exact yields_pure ((h4.after (-1)).free (by decide))
  · refine moduleInitialize_after.bind fun r hr => ?_
    obtain ⟨ret, s'⟩ := r
    have h5 := h4.trans_after hr
    dsimp only
    split_ifs with hret
    · exact yields_pure (h5.free hret)
    · exact yields_pure ⟨h5.obtained, h5.freed, fun h => absurd rfl h⟩

variable {path : List UInt8} {flags : ℕ}

/-- A file that cannot be opened is freed. -/
lemma fileOpen_clean (h : NotOpened env path s) (flags : ℕ) :
    (fileOpen env path flags s).1 = none ∧ Clean s (fileOpen env path flags s).2 := by
  unfold fileOpen
  dsimp only
  by_cases hfile : (bmalloc env s sizeofFile).1 = 0
  · rw [if_pos hfile]
    refine ⟨rfl, fun i hi hle => ?_, rfl⟩
    rw [obtained_none hfile] at hi
    exact absurd (s.numbered i hi) (not_lt.2 hle)
  · -- the only object is the file, and it is freed
    have hfree : ∀ i ∈ (bmalloc env s sizeofFile).2.obtained, s.calls ≤ i →
        (s.freed ++ [s.calls]).count i = s.freed.count i + 1 := by
      intro i hi hle
      rw [obtained_some hfile] at hi
      rcases List.mem_append.1 hi with hi | hi
      · exact absurd (s.numbered i hi) (not_lt.2 hle)
      · rw [List.mem_singleton.1 hi, List.count_append, List.count_singleton_self]
    rw [if_neg hfile]
    cases hopen : env.vfsOpen path with
    | none => exact ⟨rfl, hfree, rfl⟩
    | some node =>
      have hname : (bmalloc env (bmalloc env s sizeofFile).2 (node.name.length + 1)).1 = 0 :=
        h.resolve_left hfile node hopen
      dsimp only
      rw [if_pos hname]
      refine ⟨rfl, fun i hi => hfree i ?_, rfl⟩
      rwa [← obtained_none hname]

/-- A file that is opened has a name in memory of its own. -/
lemma fileOpen_holds (h : ¬NotOpened env path s) (flags : ℕ) :
    ∃ file s', fileOpen env path flags s = (some file, s') ∧ Holds s s' ∧
      s.calls + 1 < s'.calls ∧ s.calls + 1 ∈ s'.obtained := by
  obtain ⟨hfile, hnode⟩ := not_or.1 h
  simp only [not_forall] at hnode
  obtain ⟨node, hopen, hname⟩ := hnode
  have hopen' : env.vfsOpen path = some node := hopen
  have hfile' : (bmalloc env s sizeofFile).1 ≠ 0 := hfile
  have hname' : (bmalloc env (bmalloc env s sizeofFile).2 (node.name.length + 1)).1 ≠ 0 := hname
  refine ⟨⟨node.name, node, flags, 0, node.length, node.isString⟩,
    (bmalloc env (bmalloc env s sizeofFile).2 (node.name.length + 1)).2, ?_,
    (holds_bmalloc env s sizeofFile).trans (holds_bmalloc env _ _), Nat.lt_succ_self _, ?_⟩
  · unfold fileOpen
    dsimp only
    rw [if_neg hfile', hopen']
    dsimp only
    rw [if_neg hname']
  · rw [obtained_some hname']
    exact List.mem_append_right _ (List.mem_singleton_self _)

/-! ### Loading -/

/-- Where the file is opened, an error comes from `module_read_file`. -/
lemma moduleOpen_opened {name : List UInt8} {ret : ℤ}
    (hopen : ¬NotOpened env (modulesPath ++ name ++ ebm) s)
    (h : moduleOpen env k old name s = pure (ret, s')) (hret : ret ≠ 0) :
    ∃ s₁ s₂, Holds s s₁ ∧ s.calls + 1 < s₁.calls ∧ s.calls + 1 ∈ s₁.obtained ∧
      (∃ ret₂, ret₂ ≠ 0 ∧ After s₁ (ret₂, s₂)) ∧ s' = bfree s₂ s.calls := by
  obtain ⟨file, s₁, heq, hold, hlt, hmem⟩ := fileOpen_holds hopen 0
  unfold moduleOpen at h
  dsimp only at h
  rw [heq] at h
  obtain ⟨⟨ret₂, s₂⟩, hread, h⟩ := bind_eq_pure.1 h
  have hafter := moduleReadFile_after _ hread
  by_cases hret₂ : ret₂ ≠ 0
  · rw [if_pos hret₂] at h
    exact ⟨s₁, s₂, hold, hlt, hmem, ⟨ret₂, hret₂, hafter⟩, (Prod.mk.inj (pure_inj.1 h)).2.symm⟩
  · rw [if_neg hret₂] at h
    exact absurd (Prod.mk.inj (pure_inj.1 h)).1.symm hret

/-- After an error no module is listed. -/
theorem modules_same {name : List UInt8} {ret : ℤ}
    (h : moduleOpen env k old name s = pure (ret, s')) (hret : ret ≠ 0) :
    s'.modules = s.modules := by
  by_cases hopen : NotOpened env (modulesPath ++ name ++ ebm) s
  · obtain ⟨hnone, hclean⟩ := fileOpen_clean hopen 0
    unfold moduleOpen at h
    dsimp only at h
    rw [hnone] at h
    rw [← (Prod.mk.inj (pure_inj.1 h)).2]
    exact hclean.modules
  · obtain ⟨s₁, s₂, hold, -, -, ⟨ret₂, hret₂, hafter⟩, rfl⟩ := moduleOpen_opened hopen h hret
    exact (hafter.modules hret₂).trans hold.modules

/-- **A module that cannot be loaded leaves nothing behind** exactly where not even its file can
be opened. -/
theorem clean_iff (env : Env) (k : ℕ) (old : Old) (name : List UInt8) (s : State) (ret : ℤ)
    (s' : State) (h : moduleOpen env k old name s = pure (ret, s')) (hret : ret ≠ 0) :
    Clean s s' ↔ NotOpened env (modulesPath ++ name ++ ebm) s := by
  by_cases hopen : NotOpened env (modulesPath ++ name ++ ebm) s
  · obtain ⟨hnone, hclean⟩ := fileOpen_clean hopen 0
    refine iff_of_true ?_ hopen
    unfold moduleOpen at h
    dsimp only at h
    rw [hnone] at h
    rw [← (Prod.mk.inj (pure_inj.1 h)).2]
    exact hclean
  · obtain ⟨s₁, s₂, hold, hlt, hmem, ⟨ret₂, -, hafter⟩, rfl⟩ := moduleOpen_opened hopen h hret
    refine iff_of_false (fun hclean => ?_) hopen
    -- the name of the file is never freed
    have hcount := hclean.freed (s.calls + 1) (hafter.obtained _ hmem) (Nat.le_succ _)
    have hsame : (bfree s₂ s.calls).freed.count (s.calls + 1) = s.freed.count (s.calls + 1) := by
      unfold bfree
      rw [List.count_append, hafter.freed _ hlt, hold.freed, List.count_singleton,
        if_neg (by simp), Nat.add_zero]
    omega

def aEbm : List UInt8 := [97] ++ ebm

lemma aEbm_isString : 0 ∉ aEbm := by decide

def noMem : Bytes := fun _ => 0

lemma four_numbered : ∀ i ∈ [0, 1, 2, 3], i < 4 := by decide

/-- There is memory for everything, and a file `a.ebm` that cannot be read. -/
def unreadable : Env where
  inRange _ := false
  symbols := []
  bmalloc _ _ := 4096
  vfsOpen _ := some ⟨aEbm, 205, aEbm_isString⟩
  vfsRead _ _ _ _ mem := (0, mem)
  init _ := 0
  ret := 0

def freshState : State := ⟨noMem, 0, [], [], [], fun _ => noMem, [], none_numbered⟩

/-- The file is object 0, its name 1, the module 2 and the image 3. -/
def leftState : State :=
  ⟨noMem, 4, [0, 1, 2, 3], [3, 2, 0], [], fun _ => noMem, [], four_numbered⟩

def blank : Old := ⟨noMem, ⟨0, 0, 0, 0, 0, 0, 0⟩⟩

theorem clean_iff_unreadable :
    Clean freshState leftState ↔ NotOpened unreadable (modulesPath ++ [97] ++ ebm) freshState :=
  clean_iff unreadable 0 blank [97] freshState (-efault) leftState rfl (by decide)

/-- The name of the file is left. -/
theorem not_clean :
    moduleOpen unreadable 0 blank [97] freshState = pure (-efault, leftState) ∧
      ¬ Clean freshState leftState :=
  ⟨rfl, fun h => absurd (h.freed 1 (by decide) (by decide)) (by decide)⟩

end Elfboot.ModuleLeak
