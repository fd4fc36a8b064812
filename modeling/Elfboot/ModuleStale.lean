import Elfboot.ModuleEnds
import Elfboot.ModuleLeak

/-!
Loading a module over what its memory held before.
-/

namespace Elfboot.ModuleStale

open Elfboot.Errno Elfboot.Loop Elfboot.Checked Elfboot.Word Elfboot.Buffer Elfboot.Str
open Elfboot.ModuleLoad
open Elfboot.ModuleImage (Module initModuleWord exitModuleWord)
open Elfboot.ModuleEnds (zeros image imageMem imageEnv)
open Elfboot.ModuleLeak (aEbm aEbm_isString freshState blank noMem)

/-- The array `name` of a module holds the string. -/
def IsName (b : Bytes) (l : List UInt8) : Prop := l.length < 32 ∧ CStr b 0 l

/-- The module comes to its start: `module_initialize` is called for `mod` in `s₁`. -/
structure ComesToStart (env : Env) (k : ℕ) (old : Old) (file : File) (s : State) (mod : Module)
    (s₁ : State) : Prop where
  object : (bmalloc env s sizeofModule).1 ≠ 0
  buffer : (bmalloc env (bmalloc env s sizeofModule).2 file.length).1 ≠ 0
  read : (fileRead env s.mem file file.length
    (bmalloc env (bmalloc env s sizeofModule).2 file.length).1).1 ≠ 0
  prepared : modulePrepare env k
    { old.fields with ehdr := (bmalloc env (bmalloc env s sizeofModule).2 file.length).1 }
    { (bmalloc env (bmalloc env s sizeofModule).2 file.length).2 with
      mem := (fileRead env s.mem file file.length
        (bmalloc env (bmalloc env s sizeofModule).2 file.length).1).2 } = pure (0, mod, s₁)

/-- A name is not in the symbol table. -/
def Missing (env : Env) (mod : Module) (mem : Bytes) (name : List UInt8) : Prop :=
  moduleFindSymbol env mem mod name = pure 0

/-- The address is what the symbol `init_module` of the image gives. -/
def InitAddr (env : Env) (mod : Module) (mem : Bytes) (a : ℕ) : Prop :=
  ∃ sym, sym ≠ 0 ∧ moduleFindSymbol env mem mod initModuleWord = pure sym ∧
    stValue env mem sym = pure a

/-- A module with the file name `stem` and `.ebm` is started as it should be. -/
structure StartsRight (env : Env) (k : ℕ) (old : Old) (file : File) (stem : List UInt8)
    (s : State) : Prop where
  missing : ∀ mod s₁, ComesToStart env k old file s mod s₁ →
    Missing env mod s₁.mem initModuleWord ∨ Missing env mod s₁.mem exitModuleWord →
      ∀ r, moduleInitialize env mod s.calls s₁ = pure r → r.1 ≠ 0
  calls : ∀ mod s₁, ComesToStart env k old file s mod s₁ →
    ∀ r, moduleInitialize env mod s.calls s₁ = pure r →
      r.2.called = s₁.called ∨ ∃ a, r.2.called = s₁.called ++ [a] ∧ InitAddr env mod s₁.mem a
  named : ∀ r, moduleReadFile env k old file s = pure r → r.1 = 0 → IsName (r.2.name s.calls) stem

/-- Two loads return the same, with the same state but for the names, and after a success with
the same name. -/
def Same (object : ℕ) (r r' : ℤ × State) : Prop :=
  r.1 = r'.1 ∧ { r.2 with name := r'.2.name } = r'.2 ∧
    (r.1 = 0 → ∀ l, IsName (r.2.name object) l ↔ IsName (r'.2.name object) l)

/-- The same, or both do not end, or end with the same fault. -/
def SameLoad (object : ℕ) : Res (ℤ × State) → Res (ℤ × State) → Prop := Alike (Same object)

/-- The two pointers that a module is started with. -/
def Null (init exit : ℕ) : Prop := init = 0 ∨ exit = 0

/-- The string fits into the array `name`, and a terminator is behind it already. -/
def Fits (stem : List UInt8) (old : Old) : Prop := stem.length < 32 ∧ old.name stem.length = 0

/-- What two memories may hold for a module that comes to its start with the symbols. -/
def Harmless (env : Env) (stem : List UInt8) (old old' : Old)
    (initSym exitSym init exit init' exit' : ℕ) : Prop :=
  if initSym ≠ 0 ∧ exitSym ≠ 0 then
    ¬Null init exit → env.init init = 0 → Fits stem old ∧ Fits stem old'
  else
    Null init exit ∧ Null init' exit' ∨
      initSym ≠ 0 ∧ ¬Null init exit ∧ ¬Null init' exit' ∧ env.init init ≠ 0

variable {env : Env} {mem : Bytes} {k object ehdr : ℕ} {old old' : Old} {file : File} {s s₁ : State}
  {mod : Module} {stem : List UInt8}

/-! ### Until the start -/

/-- Two modules but for the function pointers. -/
def Twins (old old' : Old) (mod mod' : Module) : Prop :=
  ∃ m : Module, mod = { m with init := old.fields.init, exit := old.fields.exit } ∧
    mod' = { m with init := old'.fields.init, exit := old'.fields.exit }

lemma findSections_twins (env : Env) (mem : Bytes) (ehdr : ℕ) (old old' : Old) :
    Alike (fun r r' => r.1 = r'.1 ∧ (r.1 = 0 → Twins old old' r.2 r'.2))
      (moduleFindSections env mem { old.fields with ehdr })
      (moduleFindSections env mem { old'.fields with ehdr }) := by
  unfold moduleFindSections
  refine Alike.after fun header => Alike.after fun shstrndx => Alike.after fun _ =>
    Alike.after fun shdr => ?_
  by_cases hshdr : shdr = 0
  · rw [if_pos hshdr, if_pos hshdr]
    exact alike_pure ⟨rfl, fun h => absurd h (by decide : -enoent ≠ 0)⟩
  rw [if_neg hshdr, if_neg hshdr]
  refine Alike.after fun symtab => Alike.after fun strtab => ?_
  by_cases hstrtab : strtab = 0
  · rw [if_pos hstrtab, if_pos hstrtab]
    exact alike_pure ⟨rfl, fun h => absurd h (by decide : -enoent ≠ 0)⟩
  rw [if_neg hstrtab, if_neg hstrtab]
  refine Alike.after fun size => Alike.after fun entsize => Alike.after fun numsyms => ?_
  exact alike_pure ⟨rfl, fun _ => ⟨⟨ehdr, header, symtab, numsyms, strtab, 0, 0⟩, rfl, rfl⟩⟩

lemma prepare_twins (env : Env) (k ehdr : ℕ) (s : State) (old old' : Old) :
    Alike (fun r r' => r.1 = r'.1 ∧ r.2.2 = r'.2.2 ∧ (r.1 = 0 → Twins old old' r.2.1 r'.2.1))
      (modulePrepare env k { old.fields with ehdr } s)
      (modulePrepare env k { old'.fields with ehdr } s) := by
  unfold modulePrepare
  refine (findSections_twins env s.mem ehdr old old').bind fun r r' h => ?_
  obtain ⟨ret, mod⟩ := r
  obtain ⟨ret', mod'⟩ := r'
  obtain ⟨rfl, htwins⟩ := h
  dsimp only at htwins ⊢
  by_cases hret : ret = 0
  · obtain ⟨m, rfl, rfl⟩ := htwins hret
    rw [if_neg (not_not.2 hret), if_neg (not_not.2 hret)]
    have hload : moduleLoadSections env
        { m with init := old.fields.init, exit := old.fields.exit } s = moduleLoadSections env
          { m with init := old'.fields.init, exit := old'.fields.exit } s := rfl
    rw [hload]
    refine Alike.after fun r => ?_
    obtain ⟨ret, s⟩ := r
    dsimp only
    split_ifs
    · exact alike_pure ⟨rfl, rfl, fun _ => ⟨m, rfl, rfl⟩⟩
    · have hresolve : moduleResolveSymbols env s.mem
          { m with init := old.fields.init, exit := old.fields.exit } k =
            moduleResolveSymbols env s.mem
              { m with init := old'.fields.init, exit := old'.fields.exit } k := rfl
      rw [hresolve]
      refine Alike.after fun r => ?_
      obtain ⟨ret, mem⟩ := r
      dsimp only
      split_ifs
      · exact alike_pure ⟨rfl, rfl, fun _ => ⟨m, rfl, rfl⟩⟩
      · have hrelocate : moduleResolveRelocations env mem
            { m with init := old.fields.init, exit := old.fields.exit } =
              moduleResolveRelocations env mem
                { m with init := old'.fields.init, exit := old'.fields.exit } := rfl
        rw [hrelocate]
        exact Alike.after fun r => alike_pure ⟨rfl, rfl, fun _ => ⟨m, rfl, rfl⟩⟩
  · rw [if_pos hret, if_pos hret]
    exact alike_pure ⟨rfl, rfl, fun h => absurd h hret⟩

/-- What `module_read_file` does with the result of `module_initialize`. -/
def finish (old : Old) (file : File) (s : State) (r : ℤ × State) : ℤ × State :=
  if r.1 ≠ 0 then (-efault, bfree (bfree r.2 (s.calls + 1)) s.calls)
  else (0, { r.2 with
    name := Function.update r.2.name s.calls
      (strncpy old.name file.name (sub32 file.name.length 4)) })

lemma readFile_start (h : ComesToStart env k old file s mod s₁) :
    moduleReadFile env k old file s =
      moduleInitialize env mod s.calls s₁ >>= fun r => pure (finish old file s r) := by
  have hprepared := h.prepared
  unfold moduleReadFile
  dsimp only
  rw [if_neg h.object, if_neg h.buffer]
  have hread : (fileRead env (bmalloc env (bmalloc env s sizeofModule).2 file.length).2.mem file
      file.length (bmalloc env (bmalloc env s sizeofModule).2 file.length).1).1 ≠ 0 := h.read
  rw [if_neg hread]
  have hmem : (bmalloc env (bmalloc env s sizeofModule).2 file.length).2.mem = s.mem := rfl
  rw [hmem, hprepared, pure_bind]
  dsimp only
  rw [if_neg (not_not.2 rfl)]
  refine bind_congr fun r => ?_
  unfold finish
  split_ifs
  · rfl
  · rfl

/-- Another memory comes to the start as well, with its own pointers. -/
lemma ComesToStart.twin (h : ComesToStart env k old file s mod s₁) (old' : Old) :
    ∃ mod', ComesToStart env k old' file s mod' s₁ ∧ Twins old old' mod mod' := by
  rcases prepare_twins env k (bmalloc env (bmalloc env s sizeofModule).2 file.length).1
      { (bmalloc env (bmalloc env s sizeofModule).2 file.length).2 with
        mem := (fileRead env s.mem file file.length
          (bmalloc env (bmalloc env s sizeofModule).2 file.length).1).2 } old old' with
    ⟨hx, -⟩ | ⟨e, hx, -⟩ | ⟨a, b, hx, hy, hret, hs, htwins⟩
  · exact absurd (hx.symm.trans h.prepared) stuck_ne_pure
  · exact absurd (hx.symm.trans h.prepared) throw_ne_pure
  · obtain rfl := pure_inj.1 (hx.symm.trans h.prepared)
    obtain ⟨ret', mod', s'⟩ := b
    obtain rfl : (0 : ℤ) = ret' := hret
    obtain rfl : s₁ = s' := hs
    exact ⟨mod', ⟨h.object, h.buffer, h.read, hy⟩, htwins rfl⟩

/-- Where a module does not come to its start, nothing depends on the memory, and it is not
loaded. -/
lemma readFile_stops (h : ∀ mod s₁, ¬ComesToStart env k old file s mod s₁) (old' : Old) :
    Alike (fun r r' => r = r' ∧ r.1 ≠ 0) (moduleReadFile env k old file s)
      (moduleReadFile env k old' file s) := by
  have hneg : -efault ≠ 0 := by decide
  unfold moduleReadFile
  dsimp only
  by_cases hobject : (bmalloc env s sizeofModule).1 = 0
  · rw [if_pos hobject, if_pos hobject]
    exact alike_pure ⟨rfl, (by decide : -enomem ≠ 0)⟩
  rw [if_neg hobject, if_neg hobject]
  by_cases hbuffer : (bmalloc env (bmalloc env s sizeofModule).2 file.length).1 = 0
  · rw [if_pos hbuffer, if_pos hbuffer]
    exact alike_pure ⟨rfl, hneg⟩
  rw [if_neg hbuffer, if_neg hbuffer]
  have hmem : (bmalloc env (bmalloc env s sizeofModule).2 file.length).2.mem = s.mem := rfl
  rw [hmem]
  by_cases hread : (fileRead env s.mem file file.length
      (bmalloc env (bmalloc env s sizeofModule).2 file.length).1).1 = 0
  · rw [if_pos hread, if_pos hread]
    exact alike_pure ⟨rfl, hneg⟩
  rw [if_neg hread, if_neg hread]
  rcases prepare_twins env k (bmalloc env (bmalloc env s sizeofModule).2 file.length).1
      { (bmalloc env (bmalloc env s sizeofModule).2 file.length).2 with
        mem := (fileRead env s.mem file file.length
          (bmalloc env (bmalloc env s sizeofModule).2 file.length).1).2 } old old' with
    ⟨hx, hy⟩ | ⟨e, hx, hy⟩ | ⟨a, b, hx, hy, hret, hs, -⟩
  · rw [hx, hy]
    exact Or.inl ⟨rfl, rfl⟩
  · rw [hx, hy]
    exact Or.inr (Or.inl ⟨e, rfl, rfl⟩)
  · obtain ⟨ret, mod, s'⟩ := a
    obtain ⟨ret', mod', s''⟩ := b
    obtain rfl : ret = ret' := hret
    obtain rfl : s' = s'' := hs
    rw [hx, hy, pure_bind, pure_bind]
    dsimp only
    have hne : ret ≠ 0 := by
      rintro rfl
      exact h mod s' ⟨hobject, hbuffer, hread, hx⟩
    rw [if_pos hne, if_pos hne]
    exact alike_pure ⟨rfl, hneg⟩

/-! ### The start -/

/-- What `module_initialize` does with the pointers. -/
def start (env : Env) (object init exit : ℕ) (s : State) : ℤ × State :=
  if init = 0 ∨ exit = 0 then (-enoexec, s)
  else if env.init init ≠ 0 then (-efault, { s with called := s.called ++ [init] })
  else (0, { s with called := s.called ++ [init], modules := object :: s.modules })

variable {initSym exitSym init exit init' exit' : ℕ}

/-- The symbols and the pointers of a start. -/
structure Pointers (env : Env) (mod : Module) (mem : Bytes) (initSym exitSym init exit : ℕ) :
    Prop where
  initSym_eq : moduleFindSymbol env mem mod initModuleWord = pure initSym
  exitSym_eq : moduleFindSymbol env mem mod exitModuleWord = pure exitSym
  init_eq : pointer env mem initSym mod.init = pure init
  exit_eq : pointer env mem exitSym mod.exit = pure exit

lemma Pointers.initialize (h : Pointers env mod s.mem initSym exitSym init exit) (object : ℕ) :
    moduleInitialize env mod object s = pure (start env object init exit s) := by
  unfold moduleInitialize start
  simp only [h.initSym_eq, h.exitSym_eq, h.init_eq, h.exit_eq, pure_bind]
  split_ifs
  · rfl
  · rfl
  · rfl

/-- A start that ends has pointers. -/
lemma pointers_of_start {r : ℤ × State}
    (h : moduleInitialize env mod object s = pure r) :
    ∃ initSym exitSym init exit, Pointers env mod s.mem initSym exitSym init exit := by
  obtain ⟨initSym, h1, h⟩ := bind_eq_pure.1 h
  obtain ⟨exitSym, h2, h⟩ := bind_eq_pure.1 h
  obtain ⟨init, h3, h⟩ := bind_eq_pure.1 h
  obtain ⟨exit, h4, -⟩ := bind_eq_pure.1 h
  exact ⟨initSym, exitSym, init, exit, h1, h2, h3, h4⟩

lemma pointer_sym {sym a b : ℕ} (hsym : sym ≠ 0) :
    pointer env mem sym a = pointer env mem sym b := by
  unfold pointer
  rw [if_pos hsym, if_pos hsym]

/-- The same symbols are found, and the same pointers where they are. -/
lemma Pointers.twin {mod' : Module} (h : Pointers env mod mem initSym exitSym init exit)
    (htwins : Twins old old' mod mod') : ∃ init' exit',
      Pointers env mod' mem initSym exitSym init' exit' ∧ (initSym ≠ 0 → init' = init) ∧
        (exitSym ≠ 0 → exit' = exit) := by
  obtain ⟨m, rfl, rfl⟩ := htwins
  have hpointer : ∀ sym a b c, pointer env mem sym a = pure c →
      ∃ c', pointer env mem sym b = pure c' ∧ (sym ≠ 0 → c' = c) := by
    intro sym a b c hc
    by_cases hsym : sym = 0
    · exact ⟨b, if_neg (not_not.2 hsym), fun h => absurd hsym h⟩
    · exact ⟨c, (pointer_sym hsym).symm.trans hc, fun _ => rfl⟩
  obtain ⟨init', hinit, hi⟩ := hpointer _ _ old'.fields.init _ h.init_eq
  obtain ⟨exit', hexit, he⟩ := hpointer _ _ old'.fields.exit _ h.exit_eq
  exact ⟨init', exit', ⟨h.initSym_eq, h.exitSym_eq, hinit, hexit⟩, hi, he⟩

/-- Twins are started alike, as long as there is no result. -/
lemma initialize_twins (env : Env) {mod' : Module} (htwins : Twins old old' mod mod')
    (object : ℕ) (s : State) : Alike (fun _ _ => True) (moduleInitialize env mod object s)
      (moduleInitialize env mod' object s) := by
  obtain ⟨m, rfl, rfl⟩ := htwins
  have hpointer : ∀ sym a b, Alike (fun _ _ => True) (pointer env s.mem sym a)
      (pointer env s.mem sym b) := by
    intro sym a b
    by_cases hsym : sym = 0
    · unfold pointer
      rw [if_neg (not_not.2 hsym), if_neg (not_not.2 hsym)]
      exact alike_pure trivial
    · rw [pointer_sym (a := a) (b := b) hsym]
      exact (alike_self _).mono fun _ _ _ => trivial
  refine Alike.after fun initSym => Alike.after fun exitSym => (hpointer _ _ _).bind
    fun init init' _ => (hpointer _ _ _).bind fun exit exit' _ => ?_
  split_ifs <;> exact alike_pure trivial

/-! ### The name -/

/-- **The name** that is copied is a string in its array exactly where it fits. -/
lemma isName_iff (hname : file.name = stem ++ ebm) (old : Old) :
    IsName (strncpy old.name file.name (sub32 file.name.length 4)) stem ↔ Fits stem old := by
  refine and_congr_right fun hlt => ?_
  have hlen : file.name.length = stem.length + 4 := by
    rw [hname, List.length_append]
    rfl
  have hsub : sub32 file.name.length 4 = stem.length := by
    rw [hlen, sub32_of_le (by omega) (by omega), Nat.add_sub_cancel]
  have htake : file.name.take stem.length = stem := by
    rw [hname, List.take_left]
  have h0 : 0 ∉ stem := fun h => file.isString (hname ▸ List.mem_append_left _ h)
  have hcopy : strncpy old.name file.name (sub32 file.name.length 4) =
      fun i => if i < stem.length then stem.getD i 0 else old.name i := by
    unfold strncpy
    rw [hsub, if_neg (by omega), htake]
  have hend : (fun i => if i < stem.length then stem.getD i 0 else old.name i) stem.length =
      old.name stem.length := if_neg (lt_irrefl _)
  rw [hcopy, ← hend]
  constructor
  · intro h
    have := h.end
    rwa [Nat.zero_add] at this
  · intro h
    refine CStr.of_get (fun i hi => ?_) (fun c hc h => h0 (h ▸ hc)) (by rwa [Nat.zero_add])
    rw [Nat.zero_add, if_pos hi, List.getD_eq_getElem _ _ hi]

/-! ### Starting right -/

variable {mod' : Module}

lemma ComesToStart.unique {s₂ : State} (h : ComesToStart env k old file s mod s₁)
    (h' : ComesToStart env k old file s mod' s₂) : mod = mod' ∧ s₁ = s₂ := by
  have heq := Prod.mk.inj (Prod.mk.inj (pure_inj.1 (h.prepared.symm.trans h'.prepared))).2
  exact heq

/-- What is right about a start with the pointers. -/
structure Right (env : Env) (mod : Module) (old : Old) (file : File) (stem : List UInt8)
    (s s₁ : State) (initSym exitSym : ℕ) (r : ℤ × State) : Prop where
  missing : initSym = 0 ∨ exitSym = 0 → r.1 ≠ 0
  calls : r.2.called = s₁.called ∨
    ∃ a, r.2.called = s₁.called ++ [a] ∧ InitAddr env mod s₁.mem a
  named : r.1 = 0 → IsName ((finish old file s r).2.name s.calls) stem

lemma finish_fst (old : Old) (file : File) (s : State) (r : ℤ × State) :
    (finish old file s r).1 = 0 ↔ r.1 = 0 := by
  unfold finish
  by_cases h : r.1 = 0
  · rw [if_neg (not_not.2 h)]
    exact iff_of_true rfl h
  · rw [if_pos h]
    exact iff_of_false (by decide : -efault ≠ 0) h

lemma startsRight_iff (hs : ComesToStart env k old file s mod s₁)
    (hp : Pointers env mod s₁.mem initSym exitSym init exit) :
    StartsRight env k old file stem s ↔
      Right env mod old file stem s s₁ initSym exitSym (start env s.calls init exit s₁) := by
  have hinit := hp.initialize (s := s₁) s.calls
  have hread : moduleReadFile env k old file s =
      pure (finish old file s (start env s.calls init exit s₁)) := by
    rw [readFile_start hs, hinit, pure_bind]
  have hmissing : Missing env mod s₁.mem initModuleWord ∨ Missing env mod s₁.mem exitModuleWord ↔
      initSym = 0 ∨ exitSym = 0 := by
    unfold Missing
    rw [hp.initSym_eq, hp.exitSym_eq, pure_inj, pure_inj]
  constructor
  · intro h
    exact ⟨fun hm => h.missing mod s₁ hs (hmissing.2 hm) _ hinit, h.calls mod s₁ hs _ hinit,
      fun h0 => h.named _ hread ((finish_fst ..).2 h0)⟩
  · intro h
    refine ⟨fun mod₂ s₂ hs₂ hm r hr => ?_, fun mod₂ s₂ hs₂ r hr => ?_, fun r hr h0 => ?_⟩
    · obtain ⟨rfl, rfl⟩ := hs.unique hs₂
      obtain rfl := pure_inj.1 (hinit.symm.trans hr)
      exact h.missing (hmissing.1 hm)
    · obtain ⟨rfl, rfl⟩ := hs.unique hs₂
      obtain rfl := pure_inj.1 (hinit.symm.trans hr)
      exact h.calls
    · obtain rfl := pure_inj.1 (hread.symm.trans hr)
      exact h.named ((finish_fst ..).1 h0)

lemma start_null (h : Null init exit) :
    start env object init exit s = (-enoexec, s) := if_pos h

lemma start_fails (h : ¬Null init exit) (hinit : env.init init ≠ 0) :
    start env object init exit s = (-efault, { s with called := s.called ++ [init] }) :=
  (if_neg h).trans (if_pos hinit)

lemma start_succeeds (h : ¬Null init exit) (hinit : env.init init = 0) :
    start env object init exit s =
      (0, { s with called := s.called ++ [init], modules := object :: s.modules }) :=
  (if_neg h).trans (if_neg (not_not.2 hinit))

lemma finish_name (old : Old) (file : File) (s s₂ : State) :
    (finish old file s (0, s₂)).2.name s.calls =
      strncpy old.name file.name (sub32 file.name.length 4) := Function.update_self ..

/-- A module that is not started is freed, whatever its memory holds. -/
lemma finish_fails (old old' : Old) (file : File) {r : ℤ × State} (h : r.1 ≠ 0) :
    finish old file s r = finish old' file s r := (if_pos h).trans (if_pos h).symm

lemma same_self (object : ℕ) (r : ℤ × State) : Same object r r :=
  ⟨rfl, rfl, fun _ _ => Iff.rfl⟩

lemma right_of_null (hnull : Null init exit) :
    Right env mod old file stem s s₁ initSym exitSym (start env s.calls init exit s₁) := by
  rw [start_null hnull]
  have hne : -enoexec ≠ 0 := by decide
  exact ⟨fun _ => hne, Or.inl rfl, fun h => absurd h hne⟩

lemma right_of_fails (hp : Pointers env mod s₁.mem initSym exitSym init exit)
    (hsym : initSym ≠ 0) (hnull : ¬Null init exit) (hinit : env.init init ≠ 0) :
    Right env mod old file stem s s₁ initSym exitSym (start env s.calls init exit s₁) := by
  have hvalue := hp.init_eq
  unfold pointer at hvalue
  rw [if_pos hsym] at hvalue
  rw [start_fails hnull hinit]
  have hne : -efault ≠ 0 := by decide
  exact ⟨fun _ => hne, Or.inr ⟨init, rfl, initSym, hsym, hp.initSym_eq, hvalue⟩,
    fun h => absurd h hne⟩

lemma right_of_succeeds (hp : Pointers env mod s₁.mem initSym exitSym init exit)
    (hsym : initSym ≠ 0) (hsym' : exitSym ≠ 0) (hnull : ¬Null init exit)
    (hinit : env.init init = 0) (hname : file.name = stem ++ ebm) :
    Right env mod old file stem s s₁ initSym exitSym (start env s.calls init exit s₁) ↔
      Fits stem old := by
  have hvalue := hp.init_eq
  unfold pointer at hvalue
  rw [if_pos hsym] at hvalue
  rw [start_succeeds hnull hinit, ← isName_iff hname old]
  constructor
  · intro h
    have := h.named rfl
    rwa [finish_name] at this
  · intro h
    refine ⟨fun hm => ?_, Or.inr ⟨init, rfl, initSym, hsym, hp.initSym_eq, hvalue⟩, fun _ => ?_⟩
    · exact absurd hm (not_or.2 ⟨hsym, hsym'⟩)
    · rwa [finish_name]

/-- Two starts of which one calls a function and the other does not are not the same. -/
lemma not_same_called {r r' : ℤ × State} {a : ℕ} (hret : r.1 ≠ 0) (hret' : r'.1 ≠ 0)
    (h : r.2.called = s₁.called) (h' : r'.2.called = s₁.called ++ [a]) :
    ¬Same object (finish old file s r) (finish old' file s r') ∧
      ¬Same object (finish old' file s r') (finish old file s r) := by
  have hne : s₁.called ≠ s₁.called ++ [a] := by simp
  unfold finish
  rw [if_pos hret, if_pos hret']
  constructor
  · intro hsame
    have hcalled := congrArg State.called hsame.2.1
    exact hne (h.symm.trans (Eq.trans hcalled h'))
  · intro hsame
    have hcalled := congrArg State.called hsame.2.1
    exact hne (h.symm.trans (Eq.trans hcalled.symm h'))

/-- Both starts are right and the same exactly where the memories are harmless. -/
lemma harmless_iff {mod' : Module} (hname : file.name = stem ++ ebm)
    (hp : Pointers env mod s₁.mem initSym exitSym init exit)
    (hp' : Pointers env mod' s₁.mem initSym exitSym init' exit')
    (hinits : initSym ≠ 0 → init' = init) (hexits : exitSym ≠ 0 → exit' = exit) :
    (Right env mod old file stem s s₁ initSym exitSym (start env s.calls init exit s₁) ∧
        Right env mod' old' file stem s s₁ initSym exitSym (start env s.calls init' exit' s₁) ∧
        Same s.calls (finish old file s (start env s.calls init exit s₁))
          (finish old' file s (start env s.calls init' exit' s₁))) ↔
      Harmless env stem old old' initSym exitSym init exit init' exit' := by
  have henoexec : -enoexec ≠ 0 := by decide
  have hefault : -efault ≠ 0 := by decide
  by_cases hsyms : initSym ≠ 0 ∧ exitSym ≠ 0
  · obtain rfl := hinits hsyms.1
    obtain rfl := hexits hsyms.2
    unfold Harmless
    rw [if_pos hsyms]
    by_cases hnull : Null init' exit'
    · refine iff_of_true ⟨right_of_null hnull, right_of_null hnull, ?_⟩ fun h => absurd hnull h
      rw [start_null hnull, finish_fails old old' file henoexec]
      exact same_self _ _
    by_cases hinit : env.init init' = 0
    · rw [right_of_succeeds hp hsyms.1 hsyms.2 hnull hinit hname,
        right_of_succeeds hp' hsyms.1 hsyms.2 hnull hinit hname]
      refine ⟨fun h _ _ => ⟨h.1, h.2.1⟩, fun h => ⟨(h hnull hinit).1, (h hnull hinit).2, ?_⟩⟩
      have hboth := h hnull hinit
      rw [start_succeeds hnull hinit]
      refine ⟨rfl, rfl, fun _ l => ?_⟩
      rw [finish_name, finish_name]
      have hn := (isName_iff hname old).2 hboth.1
      have hn' := (isName_iff hname old').2 hboth.2
      constructor
      · intro hl
        rwa [CStr.unique hl.2 hn.2]
      · intro hl
        rwa [CStr.unique hl.2 hn'.2]
    · refine iff_of_true ⟨right_of_fails hp hsyms.1 hnull hinit,
        right_of_fails hp' hsyms.1 hnull hinit, ?_⟩ fun _ h => absurd h hinit
      rw [start_fails hnull hinit, finish_fails old old' file hefault]
      exact same_self _ _
  · -- a symbol is missing
    have hmissing : initSym = 0 ∨ exitSym = 0 := by tauto
    unfold Harmless
    rw [if_neg hsyms]
    -- a start that is right calls nothing, or the symbol of the image
    have hstart : ∀ {m : Module} {o : Old} {i e : ℕ},
        Pointers env m s₁.mem initSym exitSym i e →
        Right env m o file stem s s₁ initSym exitSym (start env s.calls i e s₁) → ¬Null i e →
        initSym ≠ 0 ∧ env.init i ≠ 0 := by
      intro m o i e hp hright hnull
      have hinit : env.init i ≠ 0 := by
        intro hinit
        have hne := hright.missing hmissing
        rw [start_succeeds hnull hinit] at hne
        exact hne rfl
      refine ⟨fun h0 => ?_, hinit⟩
      have hcalls := hright.calls
      rw [start_fails hnull hinit] at hcalls
      rcases hcalls with h | ⟨a, -, sym, hsym, hfind, -⟩
      · simp at h
      · rw [hp.initSym_eq, pure_inj] at hfind
        exact hsym (hfind.symm.trans h0)
    constructor
    · rintro ⟨hright, hright', hsame⟩
      by_cases hnull : Null init exit
      · by_cases hnull' : Null init' exit'
        · exact Or.inl ⟨hnull, hnull'⟩
        · obtain ⟨-, hinit⟩ := hstart hp' hright' hnull'
          rw [start_null hnull, start_fails hnull' hinit] at hsame
          exact absurd hsame (not_same_called henoexec hefault rfl rfl).1
      · obtain ⟨hsym, hinit⟩ := hstart hp hright hnull
        by_cases hnull' : Null init' exit'
        · rw [start_null hnull', start_fails hnull hinit] at hsame
          exact absurd hsame (not_same_called henoexec hefault rfl rfl).2
        · exact Or.inr ⟨hsym, hnull, hnull', hinit⟩
    · rintro (⟨hnull, hnull'⟩ | ⟨hsym, hnull, hnull', hinit⟩)
      · refine ⟨right_of_null hnull, right_of_null hnull', ?_⟩
        rw [start_null hnull, start_null hnull', finish_fails old old' file henoexec]
        exact same_self _ _
      · obtain rfl := hinits hsym
        refine ⟨right_of_fails hp hsym hnull hinit, right_of_fails hp' hsym hnull' hinit, ?_⟩
        rw [start_fails hnull hinit, start_fails hnull' hinit,
          finish_fails old old' file hefault]
        exact same_self _ _

/-- Without a result of the start there is nothing to be wrong. -/
lemma startsRight_of_no_result (hs : ComesToStart env k old file s mod s₁)
    (hno : ∀ r, moduleInitialize env mod s.calls s₁ ≠ pure r) :
    StartsRight env k old file stem s := by
  refine ⟨fun mod₂ s₂ hs₂ _ r hr => ?_, fun mod₂ s₂ hs₂ r hr => ?_, fun r hr _ => ?_⟩
  · obtain ⟨rfl, rfl⟩ := hs.unique hs₂
    exact absurd hr (hno r)
  · obtain ⟨rfl, rfl⟩ := hs.unique hs₂
    exact absurd hr (hno r)
  · rw [readFile_start hs] at hr
    obtain ⟨r', hr', -⟩ := bind_eq_pure.1 hr
    exact absurd hr' (hno r')

/-- A module that does not come to its start is not loaded. -/
lemma startsRight_of_no_start (h : ∀ mod s₁, ¬ComesToStart env k old file s mod s₁) :
    StartsRight env k old file stem s := by
  refine ⟨fun mod s₁ hs => absurd hs (h mod s₁), fun mod s₁ hs => absurd hs (h mod s₁),
    fun r hr h0 => ?_⟩
  have hstops := readFile_stops h old
  rw [hr, alike_pure_iff] at hstops
  exact absurd h0 hstops.2

/-- **Loading does not depend on stale memory**, and is right, exactly where the module does not
come to its start, or what both memories hold is harmless. -/
theorem stale_iff (env : Env) (k : ℕ) (old old' : Old) (file : File) (stem : List UInt8)
    (s : State) (hname : file.name = stem ++ ebm) :
    (StartsRight env k old file stem s ∧ StartsRight env k old' file stem s ∧
        SameLoad s.calls (moduleReadFile env k old file s) (moduleReadFile env k old' file s)) ↔
      ∀ mod mod' s₁ initSym exitSym init exit init' exit',
        ComesToStart env k old file s mod s₁ → ComesToStart env k old' file s mod' s₁ →
        Pointers env mod s₁.mem initSym exitSym init exit →
        Pointers env mod' s₁.mem initSym exitSym init' exit' →
        Harmless env stem old old' initSym exitSym init exit init' exit' := by
  by_cases hcomes : ∃ mod s₁, ComesToStart env k old file s mod s₁
  · obtain ⟨mod, s₁, hs⟩ := hcomes
    obtain ⟨mod', hs', htwins⟩ := hs.twin old'
    by_cases hpointers : ∃ initSym exitSym init exit,
        Pointers env mod s₁.mem initSym exitSym init exit
    · obtain ⟨initSym, exitSym, init, exit, hp⟩ := hpointers
      obtain ⟨init', exit', hp', hinits, hexits⟩ := hp.twin htwins
      have hsame : SameLoad s.calls (moduleReadFile env k old file s)
          (moduleReadFile env k old' file s) ↔
            Same s.calls (finish old file s (start env s.calls init exit s₁))
              (finish old' file s (start env s.calls init' exit' s₁)) := by
        rw [readFile_start hs, readFile_start hs', hp.initialize (s := s₁),
          hp'.initialize (s := s₁), pure_bind, pure_bind]
        exact alike_pure_iff
      rw [startsRight_iff hs hp, startsRight_iff hs' hp', hsame,
        harmless_iff hname hp hp' hinits hexits]
      constructor
      · intro h mod₂ mod₂' s₂ initSym₂ exitSym₂ init₂ exit₂ init₂' exit₂' hs₂ hs₂' hp₂ hp₂'
        obtain ⟨rfl, rfl⟩ := hs.unique hs₂
        obtain ⟨rfl, -⟩ := hs'.unique hs₂'
        obtain rfl := pure_inj.1 (hp.initSym_eq.symm.trans hp₂.initSym_eq)
        obtain rfl := pure_inj.1 (hp.exitSym_eq.symm.trans hp₂.exitSym_eq)
        obtain rfl := pure_inj.1 (hp.init_eq.symm.trans hp₂.init_eq)
        obtain rfl := pure_inj.1 (hp.exit_eq.symm.trans hp₂.exit_eq)
        obtain rfl := pure_inj.1 (hp'.init_eq.symm.trans hp₂'.init_eq)
        obtain rfl := pure_inj.1 (hp'.exit_eq.symm.trans hp₂'.exit_eq)
        exact h
      · exact fun h => h _ _ _ _ _ _ _ _ _ hs hs' hp hp'
    · -- the start ends with the same fault, if it ends
      have hno : ∀ r, moduleInitialize env mod s.calls s₁ ≠ pure r := fun r hr =>
        hpointers (pointers_of_start hr)
      have halike := initialize_twins env htwins s.calls s₁
      have hno' : ∀ r, moduleInitialize env mod' s.calls s₁ ≠ pure r := by
        intro r hr
        rcases halike with ⟨-, h⟩ | ⟨e, -, h⟩ | ⟨r', -, h, -⟩
        · exact stuck_ne_pure (h.symm.trans hr)
        · exact throw_ne_pure (h.symm.trans hr)
        · exact hno r' h
      refine iff_of_true ⟨startsRight_of_no_result hs hno, startsRight_of_no_result hs' hno', ?_⟩ ?_
      · unfold SameLoad
        rw [readFile_start hs, readFile_start hs']
        rcases halike with ⟨h, h'⟩ | ⟨e, h, h'⟩ | ⟨r, r', h, -⟩
        · rw [h, h']
          exact Or.inl ⟨rfl, rfl⟩
        · rw [h, h']
          exact Or.inr (Or.inl ⟨e, rfl, rfl⟩)
        · exact absurd h (hno r)
      · intro mod₂ mod₂' s₂ initSym exitSym init exit init' exit' hs₂ _ hp _
        obtain ⟨rfl, rfl⟩ := hs.unique hs₂
        exact absurd ⟨initSym, exitSym, init, exit, hp⟩ hpointers
  · have hnone : ∀ mod s₁, ¬ComesToStart env k old file s mod s₁ := fun mod s₁ hs =>
      hcomes ⟨mod, s₁, hs⟩
    have hnone' : ∀ mod s₁, ¬ComesToStart env k old' file s mod s₁ := by
      intro mod s₁ hs
      obtain ⟨mod', hs', -⟩ := hs.twin old
      exact hnone mod' s₁ hs'
    refine iff_of_true ⟨startsRight_of_no_start hnone, startsRight_of_no_start hnone',
      (readFile_stops hnone old').mono fun r r' h => h.1 ▸ same_self _ r⟩ ?_
    intro mod _ s₁ _ _ _ _ _ _ hs
    exact absurd hs (hnone mod s₁)

def aNode : FsNode := ⟨aEbm, 205, aEbm_isString⟩

def aFile : File := ⟨aEbm, aNode, 0, 0, 205, aEbm_isString⟩

/-- An image with the symbols `init_module`, at 0x2000, and `exit_module`, at 0x2010. -/
def startImage : List UInt8 :=
  [0x7f, 0x45, 0x4c, 0x46, 1, 1, 1] ++ zeros 9 ++ [1, 0, 3, 0, 1, 0, 0, 0] ++ zeros 8 ++
    [52, 0, 0, 0] ++ zeros 4 ++ [52, 0, 0, 0, 0, 0, 40, 0, 3, 0, 2, 0] ++ zeros 40 ++
    [1, 0, 0, 0, 2, 0, 0, 0] ++ zeros 8 ++ [213, 0, 0, 0, 48, 0, 0, 0] ++ zeros 12 ++
    [16, 0, 0, 0] ++ [9, 0, 0, 0, 3, 0, 0, 0] ++ zeros 8 ++ [172, 0, 0, 0, 41, 0, 0, 0] ++
    zeros 16 ++ 0 :: symtabWord ++ 0 :: strtabWord ++ 0 :: initModuleWord ++
    0 :: exitModuleWord ++ zeros 17 ++
    [17, 0, 0, 0, 0, 0x20, 0, 0, 0, 0, 0, 0, 0x12, 0, 0xf1, 0xff] ++
    [29, 0, 0, 0, 0x10, 0x20, 0, 0, 0, 0, 0, 0, 0x12, 0, 0xf1, 0xff]

def startEnv : Env :=
  { imageEnv startImage with
    bmalloc := fun _ _ => 1024
    vfsRead := fun _ _ _ _ _ => (261, imageMem startImage) }

def startFile : File := ⟨aEbm, ⟨aEbm, 261, aEbm_isString⟩, 0, 0, 261, aEbm_isString⟩

/-- Memory with other pointers, and with a name of one byte. -/
def usedOld : Old := ⟨fun i => if i = 1 then 0 else 120, ⟨0, 0, 0, 0, 0, 4096, 4096⟩⟩

/-- Over both memories the module is started, by its own function. -/
theorem stale_iff_start :
    ((StartsRight startEnv 3 blank startFile [97] freshState ∧
        StartsRight startEnv 3 usedOld startFile [97] freshState ∧
        SameLoad freshState.calls (moduleReadFile startEnv 3 blank startFile freshState)
          (moduleReadFile startEnv 3 usedOld startFile freshState)) ↔
      ∀ mod mod' s₁ initSym exitSym init exit init' exit',
        ComesToStart startEnv 3 blank startFile freshState mod s₁ →
        ComesToStart startEnv 3 usedOld startFile freshState mod' s₁ →
        Pointers startEnv mod s₁.mem initSym exitSym init exit →
        Pointers startEnv mod' s₁.mem initSym exitSym init' exit' →
        Harmless startEnv [97] blank usedOld initSym exitSym init exit init' exit') ∧
    (value (moduleReadFile startEnv 3 blank startFile freshState)).map
        (fun r => (r.1, r.2.called)) = some (0, [0x2000]) ∧
    (value (moduleReadFile startEnv 3 usedOld startFile freshState)).map
        (fun r => (r.1, r.2.called)) = some (0, [0x2000]) :=
  ⟨stale_iff startEnv 3 blank usedOld startFile [97] freshState rfl, by decide +kernel,
    by decide +kernel⟩

/-- A file that is an image with one symbol, which has no name. -/
def namelessEnv : Env :=
  { imageEnv (image 16) with
    bmalloc := fun _ _ => 1024
    vfsRead := fun _ _ _ _ _ => (205, imageMem (image 16)) }

/-- Memory with other pointers. -/
def otherOld : Old := ⟨noMem, ⟨0, 0, 0, 0, 0, 4096, 4096⟩⟩

/-- Without `init_module` and `exit_module` the load fails, or a stale pointer is called and the
module is taken for loaded. -/
theorem not_same_nameless :
    ¬ SameLoad freshState.calls (moduleReadFile namelessEnv 1 blank aFile freshState)
      (moduleReadFile namelessEnv 1 otherOld aFile freshState) := by
  have hfails : (value (moduleReadFile namelessEnv 1 blank aFile freshState)).map Prod.fst =
      some (-efault) := by decide +kernel
  have hloads : (value (moduleReadFile namelessEnv 1 otherOld aFile freshState)).map
      (fun r => (r.1, r.2.called)) = some (0, [4096]) := by decide +kernel
  rintro (⟨h, -⟩ | ⟨e, h, -⟩ | ⟨r, r', h, h', hsame⟩)
  · rw [h, value_stuck] at hfails
    cases hfails
  · rw [h, value_throw] at hfails
    cases hfails
  · rw [h, value_pure, Option.map_some, Option.some_inj] at hfails
    rw [h', value_pure, Option.map_some, Option.some_inj] at hloads
    have h0 : r'.1 = 0 := congrArg Prod.fst hloads
    exact absurd (hfails.symm.trans (hsame.1.trans h0)) (by decide)

end Elfboot.ModuleStale
