import Elfboot.PciMatch

/-!
Sequences of calls of `pci_get_class`, each from the device that the last one returned.

The last call of a sequence that is to return `NULL` comes to the head of the list.
-/

namespace Elfboot.PciCalls

open Elfboot.Circular Elfboot.PciMatch

variable (s : State) (n : ℕ) (cls : BitVec 32)

/-- The calls from `NULL` on. -/
def calls : ℕ → Option (Option Node × List Node)
  | 0 => pciGetClass s n cls none
  | k + 1 => (calls k).bind fun r => pciGetClass s n cls r.1

/-- The devices of the class. -/
def matching (is : List ℕ) : List ℕ := is.filter (ofClass s cls)

/-- The calls return the devices of the class in turn, and then `NULL`. -/
def Returns (is : List ℕ) : Prop :=
  ∀ k ≤ (matching s cls is).length,
    (calls s n cls k).map Prod.fst = some ((matching s cls is)[k]?.map .dev)

/-- None of these calls takes the head of the list for a device. -/
def HeadFree (is : List ℕ) : Prop :=
  ∀ k ≤ (matching s cls is).length, ∀ r, calls s n cls k = some r → Node.pciDevs ∉ r.2

/-- The words around the head are those of a device of the class. -/
def HeadMatches : Prop :=
  matchesId ⟨pciAnyId, pciAnyId, pciAnyId, pciAnyId, cls⟩ (s.device .pciDevs) = true

variable {s n cls} {is A B : List ℕ} {i : ℕ}

lemma mem_upTo {α : Type*} {p : α → Bool} {l : List α} {x : α} (h : x ∈ upTo p l) : x ∈ l := by
  induction l with
  | nil => exact h
  | cons a l ih =>
    rw [upTo] at h
    rcases List.mem_cons.1 h with rfl | hrest
    · exact List.mem_cons_self
    · split_ifs at hrest
      · cases hrest
      · exact List.mem_cons_of_mem a (ih hrest)

/-- A search goes on to an element when nothing in front of it is found. -/
lemma mem_upTo_append {α : Type*} {p : α → Bool} {l t : List α} {x : α}
    (h : l.find? p = none) : x ∈ upTo p (l ++ x :: t) := by
  induction l with
  | nil => exact List.mem_cons_self
  | cons a l ih =>
    rw [List.find?_cons] at h
    cases hp : p a with
    | true =>
      rw [hp] at h
      cases h
    | false =>
      rw [hp] at h
      rw [List.cons_append, upTo, hp, if_neg Bool.false_ne_true]
      exact List.mem_cons_of_mem a (ih h)

lemma find_dev (l : List ℕ) :
    (l.map Node.dev).find? (fun x =>
        matchesId ⟨pciAnyId, pciAnyId, pciAnyId, pciAnyId, cls⟩ (s.device x)) =
      (matching s cls l).head?.map .dev := by
  rw [List.find?_map, matching, List.head?_filter]
  simp only [Function.comp_def, matchesId_class]

lemma class_none (h : Devices s is) (hn : is.length < n) :
    (calls s n cls 0).map Prod.fst = some ((matching s cls is).head?.map .dev) := by
  rw [calls, class_head h hn, first, matching, List.head?_filter]

/-- From a device that another one of the class follows, that one is returned. -/
lemma class_next {j : ℕ} {Y : List ℕ} (h : Devices s (A ++ i :: B))
    (hn : (A ++ i :: B).length < n) (hB : matching s cls B = j :: Y) :
    (pciGetClass s n cls (some (.dev i))).map Prod.fst = some (some (.dev j)) := by
  rw [pciGetClass, subsys_device h hn, around, List.find?_append, find_dev, hB]
  rfl

/-- From the last device of the class, the head is taken for a device; where it is not of the
class, the search goes on at the front of the list. -/
lemma class_last (h : Devices s (A ++ i :: B)) (hn : (A ++ i :: B).length < n)
    (hB : matching s cls B = []) :
    ∃ r, pciGetClass s n cls (some (.dev i)) = some r ∧ Node.pciDevs ∈ r.2 ∧
      (HeadMatches s cls → r.1 = some .pciDevs) ∧
      (¬ HeadMatches s cls → r.1 = (matching s cls A).head?.map .dev) := by
  have hfront : (B.map Node.dev).find? (fun x =>
      matchesId ⟨pciAnyId, pciAnyId, pciAnyId, pciAnyId, cls⟩ (s.device x)) = none := by
    rw [find_dev, hB]
    rfl
  refine ⟨_, subsys_device h hn, mem_upTo_append hfront, fun hhead => ?_, fun hhead => ?_⟩
  · dsimp only
    rw [around, List.find?_append, hfront, Option.none_or, List.find?_cons, hhead]
  · dsimp only
    rw [around, List.find?_append, hfront, Option.none_or, List.find?_cons,
      Bool.eq_false_iff.2 hhead, find_dev]

/-- The list around a device of the class. -/
lemma split {X Y : List ℕ} (h : matching s cls is = X ++ i :: Y) :
    ∃ A B, is = A ++ i :: B ∧ matching s cls A = X ∧ matching s cls B = Y := by
  obtain ⟨A, C, rfl, hA, hC⟩ := List.filter_eq_append_iff.1 h
  obtain ⟨D, B, rfl, hD, -, hB⟩ := List.filter_eq_cons_iff.1 hC
  refine ⟨A ++ D, B, (List.append_assoc _ _ _).symm, ?_, hB⟩
  rw [matching, List.filter_append, hA, List.filter_eq_nil_iff.2 hD, List.append_nil]

/-- The calls that are to return a device do. -/
lemma calls_device (h : Devices s is) (hn : is.length < n) {k : ℕ}
    (hk : k < (matching s cls is).length) :
    (calls s n cls k).map Prod.fst = some (some (.dev (matching s cls is)[k])) := by
  induction k with
  | zero =>
    rw [class_none h hn, List.head?_eq_getElem?, List.getElem?_eq_getElem hk]
    rfl
  | succ k ih =>
    have hlast : k < (matching s cls is).length := Nat.lt_of_succ_lt hk
    obtain ⟨r, hr, hdev⟩ := Option.map_eq_some_iff.1 (ih hlast)
    have hparts : matching s cls is = (matching s cls is).take k ++
        (matching s cls is)[k] :: (matching s cls is)[k + 1] ::
          (matching s cls is).drop (k + 2) := by
      rw [← List.drop_eq_getElem_cons hk, ← List.drop_eq_getElem_cons hlast,
        List.take_append_drop]
    obtain ⟨A, B, his, -, hB⟩ := split hparts
    rw [calls, hr, Option.bind_some, hdev]
    exact class_next (his ▸ h) (his ▸ hn) hB

/-- The call after the last device of the class. -/
lemma calls_last (h : Devices s is) (hn : is.length < n) {X : List ℕ}
    (hm : matching s cls is = X ++ [i]) :
    ∃ r, calls s n cls (X.length + 1) = some r ∧ Node.pciDevs ∈ r.2 ∧
      (HeadMatches s cls → r.1 = some .pciDevs) ∧
      (¬ HeadMatches s cls → r.1 = X.head?.map .dev) := by
  have hk : X.length < (matching s cls is).length := by
    rw [hm, List.length_append, List.length_singleton]
    exact Nat.lt_succ_self _
  obtain ⟨r, hr, hdev⟩ := Option.map_eq_some_iff.1 (calls_device h hn hk)
  have hi : (matching s cls is)[X.length] = i := by
    simp only [hm, List.getElem_concat_length]
  obtain ⟨A, B, rfl, hA, hB⟩ := split hm
  rw [calls, hr, Option.bind_some, hdev, hi, ← hA]
  exact class_last h hn hB

/-- With no device of the class the one call returns `NULL`, and the head is left alone. -/
lemma none_matching (h : Devices s is) (hn : is.length < n) (hm : matching s cls is = []) :
    Returns s n cls is ∧ HeadFree s n cls is := by
  constructor
  · intro k hk
    obtain rfl : k = 0 := by rwa [hm, List.length_nil, Nat.le_zero] at hk
    rw [class_none h hn, hm]
    rfl
  · intro k hk r hr hhead
    obtain rfl : k = 0 := by rwa [hm, List.length_nil, Nat.le_zero] at hk
    rw [calls, pciGetClass, subsys_head h hn] at hr
    cases hr
    have hmem := mem_upTo hhead
    rw [List.mem_map] at hmem
    obtain ⟨i, -, hi⟩ := hmem
    cases hi

/-- **The calls return** each device of the class once and leave the head alone if and only if there
is no device of the class. What they return is right with one device of the class as well, where
the words around the head are not of that class. -/
theorem calls_iff (h : Devices s is) (hn : is.length < n) :
    (Returns s n cls is ∧ HeadFree s n cls is ↔ matching s cls is = []) ∧
      (Returns s n cls is ↔ matching s cls is = [] ∨
        (matching s cls is).length = 1 ∧ ¬ HeadMatches s cls) := by
  rcases List.eq_nil_or_concat' (matching s cls is) with hm | ⟨X, i, hm⟩
  · have hright := none_matching h hn hm
    exact ⟨iff_of_true hright hm, iff_of_true hright.1 (.inl hm)⟩
  have hlen : (matching s cls is).length = X.length + 1 := by
    rw [hm, List.length_append, List.length_singleton]
  have hne : matching s cls is ≠ [] := by
    rw [hm]
    exact List.append_ne_nil_of_right_ne_nil X (List.cons_ne_nil i [])
  obtain ⟨r, hr, hhead, hmatch, hpast⟩ := calls_last h hn hm
  have hend : Returns s n cls is ↔ r.1 = none := by
    constructor
    · intro hreturns
      have hlast := hreturns _ hlen.ge
      rw [hr, List.getElem?_eq_none_iff.2 hlen.le] at hlast
      exact Option.some_inj.1 hlast
    · intro hnone k hk
      rcases hk.lt_or_eq with hlt | rfl
      · rw [calls_device h hn hlt, List.getElem?_eq_getElem hlt]
        rfl
      · rw [hlen, hr, List.getElem?_eq_none_iff.2 hlen.le]
        exact congrArg some hnone
  constructor
  · refine iff_of_false (fun hright => ?_) hne
    exact hright.2 _ hlen.ge r hr hhead
  · rw [hend, or_iff_right hne, hlen]
    by_cases hmem : HeadMatches s cls
    · rw [hmatch hmem]
      exact iff_of_false (Option.some_ne_none _) fun hone => hone.2 hmem
    · rw [hpast hmem, Option.map_eq_none_iff, List.head?_eq_none_iff, Nat.add_eq_right,
        List.length_eq_zero_iff]
      exact ⟨fun hX => ⟨hX, hmem⟩, And.left⟩

/-- The class of two of three devices, and that of the third, where the head does not match. -/
theorem calls_iff_threeCards :
    ((Returns threeCards 4 0x01060100 [2, 1, 0] ∧ HeadFree threeCards 4 0x01060100 [2, 1, 0] ↔
        matching threeCards 0x01060100 [2, 1, 0] = []) ∧
      matching threeCards 0x01060100 [2, 1, 0] = [2, 1]) ∧
    (Returns threeCards 4 0xffffff00 [2, 1, 0] ↔
        matching threeCards 0xffffff00 [2, 1, 0] = [] ∨
          (matching threeCards 0xffffff00 [2, 1, 0]).length = 1 ∧
            ¬ HeadMatches threeCards 0xffffff00) ∧
      matching threeCards 0xffffff00 [2, 1, 0] = [0] :=
  ⟨⟨(calls_iff devices_threeCards (by decide)).1, by decide⟩,
    (calls_iff devices_threeCards (by decide)).2, by decide⟩

/-- Two controllers of one class. -/
def twoControllers : State where
  links := listAdd (oneCard 0x01060100).links (.dev 1) .pciDevs
  device := (oneCard 0x01060100).device

/-- From the second of two controllers the first is returned again, not `NULL`, and the head was
taken for a device on the way. -/
lemma not_calls_twoControllers :
    Devices twoControllers [1, 0] ∧ matching twoControllers 0x01060100 [1, 0] = [1, 0] ∧
      calls twoControllers 3 0x01060100 2 =
        some (some (.dev 1), [.pciDevs, .dev 1]) ∧
      ¬ (Returns twoControllers 3 0x01060100 [1, 0] ∧
        HeadFree twoControllers 3 0x01060100 [1, 0]) := by
  refine ⟨(devices_oneCard _).add (by decide), by decide, by decide, fun hright => ?_⟩
  have hlast := hright.1 2 (by decide)
  revert hlast
  decide

end Elfboot.PciCalls
