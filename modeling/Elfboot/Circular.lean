import Mathlib

/-!
Circular doubly linked lists, threaded through a memory of links.

A node holds two links, to its predecessor and to its successor; a list is a head node
and the entries reached from it before the head is met again. The same memory carries
many lists at once, and an entry carries no mark of the list it is on. What the
operations do to one list, and that they leave every list they do not touch alone, is
stated once for a family of lists that share no node.
-/

namespace Elfboot.Circular

/-- The links of every node. -/
structure Links (ν : Type*) where
  prev : ν → ν
  next : ν → ν

variable {ν : Type*}

namespace Links

variable [DecidableEq ν]

def setPrev (L : Links ν) (a b : ν) : Links ν :=
  { L with prev := fun x => if x = a then b else L.prev x }

def setNext (L : Links ν) (a b : ν) : Links ν :=
  { L with next := fun x => if x = a then b else L.next x }

@[simp] lemma setPrev_prev (L : Links ν) (a b x : ν) :
    (L.setPrev a b).prev x = if x = a then b else L.prev x := rfl
@[simp] lemma setPrev_next (L : Links ν) (a b : ν) : (L.setPrev a b).next = L.next := rfl
@[simp] lemma setNext_next (L : Links ν) (a b x : ν) :
    (L.setNext a b).next x = if x = a then b else L.next x := rfl
@[simp] lemma setNext_prev (L : Links ν) (a b : ν) : (L.setNext a b).prev = L.prev := rfl

end Links

/-! ### The operations -/

section ops

variable [DecidableEq ν]

def listInit (L : Links ν) (h : ν) : Links ν := (L.setPrev h h).setNext h h

/-- Link `n` between two nodes that follow each other. -/
def linkBetween (L : Links ν) (n p q : ν) : Links ν :=
  (((L.setPrev q n).setNext n q).setPrev n p).setNext p n

def listAdd (L : Links ν) (n h : ν) : Links ν := linkBetween L n h (L.next h)

def listAddTail (L : Links ν) (n h : ν) : Links ν := linkBetween L n (L.prev h) h

/-- Close the gap around a node. -/
def unlink (L : Links ν) (p q : ν) : Links ν := (L.setNext p q).setPrev q p

/-- Unlink `n` and poison its links with `null`. -/
def listDel (null : ν) (L : Links ν) (n : ν) : Links ν :=
  ((unlink L (L.prev n) (L.next n)).setPrev n null).setNext n null

def listMove (null : ν) (L : Links ν) (n h : ν) : Links ν := listAdd (listDel null L n) n h

def listFirst (L : Links ν) (h : ν) : Option ν := if L.next h = h then none else some (L.next h)

end ops

/-! ### Segments -/

/-- From `a` the successors run through `xs` to `b`, and the predecessors back. -/
def Seg (L : Links ν) : ν → List ν → ν → Prop
  | a, [], b => L.next a = b ∧ L.prev b = a
  | a, x :: xs, b => L.next a = x ∧ L.prev x = a ∧ Seg L x xs b

lemma seg_append {L : Links ν} {a b y : ν} {xs ys : List ν} :
    Seg L a (xs ++ y :: ys) b ↔ Seg L a xs y ∧ Seg L y ys b := by
  induction xs generalizing a with
  | nil => simp [Seg, and_assoc]
  | cons x xs ih => simp only [List.cons_append, Seg, ih, and_assoc]

/-- A segment depends on the successors of all but its last node and the predecessors of
all but its first. -/
lemma Seg.congr {L L' : Links ν} {a b : ν} {xs : List ν} (h : Seg L a xs b)
    (hn : ∀ x ∈ a :: xs, L'.next x = L.next x) (hp : ∀ x ∈ b :: xs, L'.prev x = L.prev x) :
    Seg L' a xs b := by
  induction xs generalizing a with
  | nil => exact ⟨(hn a (by simp)).trans h.1, (hp b (by simp)).trans h.2⟩
  | cons x xs ih =>
      obtain ⟨h1, h2, h3⟩ := h
      refine ⟨(hn a (by simp)).trans h1, (hp x (by simp)).trans h2, ih h3 ?_ ?_⟩
      · exact fun y hy => hn y (List.mem_cons_of_mem _ hy)
      · intro y hy
        rcases List.mem_cons.mp hy with rfl | hy
        · exact hp _ (by simp)
        · exact hp y (by simp [hy])

lemma Seg.prev_mem {L : Links ν} {a b : ν} {xs : List ν} (h : Seg L a xs b) :
    L.prev b ∈ a :: xs := by
  induction xs generalizing a with
  | nil => simp [h.2]
  | cons x xs ih => exact List.mem_cons_of_mem _ (ih h.2.2)

lemma Seg.next_mem {L : Links ν} {a b : ν} {xs : List ν} (h : Seg L a xs b) :
    L.next a ∈ b :: xs := by
  cases xs with
  | nil => simp [h.1]
  | cons x xs => simp [h.1]

/-- Redirecting the last step of a segment to another end. -/
lemma Seg.retarget {L L' : Links ν} {a b c : ν} {xs : List ν} (h : Seg L a xs c)
    (hd : (a :: xs).Nodup) (hn : ∀ x ∈ a :: xs, x ≠ L.prev c → L'.next x = L.next x)
    (hp : ∀ x ∈ xs, L'.prev x = L.prev x) (hl : L'.next (L.prev c) = b)
    (hb : L'.prev b = L.prev c) : Seg L' a xs b := by
  induction xs generalizing a with
  | nil =>
      obtain ⟨-, h2⟩ := h
      rw [h2] at hl hb
      exact ⟨hl, hb⟩
  | cons x xs ih =>
      obtain ⟨h1, h2, h3⟩ := h
      obtain ⟨ha, hd⟩ := List.nodup_cons.mp hd
      have hac : a ≠ L.prev c := fun e => ha (e ▸ h3.prev_mem)
      refine ⟨(hn a (by simp) hac).trans h1, (hp x (by simp)).trans h2, ?_⟩
      exact ih h3 hd (fun y hy => hn y (List.mem_cons_of_mem _ hy))
        (fun y hy => hp y (List.mem_cons_of_mem _ hy))

/-! ### One list -/

/-- The list with head `h` has exactly the entries `xs`, in order, none twice. -/
structure IsList (L : Links ν) (h : ν) (xs : List ν) : Prop where
  nodup : (h :: xs).Nodup
  seg : Seg L h xs h

lemma IsList.congr {L L' : Links ν} {h : ν} {xs : List ν} (hl : IsList L h xs)
    (hn : ∀ x ∈ h :: xs, L'.next x = L.next x) (hp : ∀ x ∈ h :: xs, L'.prev x = L.prev x) :
    IsList L' h xs :=
  ⟨hl.nodup, hl.seg.congr hn hp⟩

lemma Seg.unique {L : Links ν} {a b : ν} {xs ys : List ν} (hx : Seg L a xs b)
    (hy : Seg L a ys b) (hbx : b ∉ xs) (hby : b ∉ ys) : xs = ys := by
  induction xs generalizing a ys with
  | nil =>
      cases ys with
      | nil => rfl
      | cons y ys => exact absurd (hx.1.symm.trans hy.1 ▸ List.mem_cons_self) hby
  | cons x xs ih =>
      cases ys with
      | nil => exact absurd (hy.1.symm.trans hx.1 ▸ List.mem_cons_self) hbx
      | cons y ys =>
          obtain rfl : x = y := hx.1.symm.trans hy.1
          rw [ih hx.2.2 hy.2.2 (fun h => hbx (List.mem_cons_of_mem _ h))
            fun h => hby (List.mem_cons_of_mem _ h)]

/-- A list is determined by its head. -/
lemma IsList.unique {L : Links ν} {h : ν} {xs ys : List ν} (hx : IsList L h xs)
    (hy : IsList L h ys) : xs = ys :=
  hx.seg.unique hy.seg (List.nodup_cons.mp hx.nodup).1 (List.nodup_cons.mp hy.nodup).1

/-- The neighbours of an entry are on its list. -/
lemma IsList.neighbours {L : Links ν} {h n : ν} {xs : List ν} (hl : IsList L h xs)
    (hn : n ∈ h :: xs) : L.prev n ∈ h :: xs ∧ L.next n ∈ h :: xs := by
  rcases List.mem_cons.mp hn with rfl | hn
  · exact ⟨hl.seg.prev_mem, hl.seg.next_mem⟩
  · obtain ⟨xs, ys, rfl⟩ := List.append_of_mem hn
    obtain ⟨h1, h2⟩ := seg_append.mp hl.seg
    have hp := h1.prev_mem
    have hq := h2.next_mem
    simp only [List.mem_cons, List.mem_append] at hp hq ⊢
    tauto

variable [DecidableEq ν]

lemma isList_init (L : Links ν) (h : ν) : IsList (listInit L h) h [] :=
  ⟨by simp, by simp [Seg, listInit]⟩

lemma IsList.first {L : Links ν} {h : ν} {xs : List ν} (hl : IsList L h xs) :
    listFirst L h = xs.head? := by
  obtain ⟨hn, hs⟩ := hl
  cases xs with
  | nil => simp [listFirst, hs.1]
  | cons x xs =>
      have : x ≠ h := by rintro rfl; simp at hn
      simp [listFirst, hs.1, this]

lemma IsList.add {L : Links ν} {h n : ν} {xs : List ν} (hl : IsList L h xs)
    (hn : n ∉ h :: xs) : IsList (listAdd L n h) h (n :: xs) := by
  obtain ⟨hd, hs⟩ := hl
  simp only [List.mem_cons, not_or] at hn
  refine ⟨by simp_all [eq_comm], ?_⟩
  cases xs with
  | nil => simp [Seg, listAdd, linkBetween, hs.1, Ne.symm hn.1]
  | cons x xs =>
      obtain ⟨h1, h2, h3⟩ := hs
      simp only [List.nodup_cons, List.mem_cons, not_or] at hd hn
      refine ⟨by simp [listAdd, linkBetween], by simp [listAdd, linkBetween], ?_, ?_, ?_⟩
      · simp [listAdd, linkBetween, h1, hn.1]
      · simp [listAdd, linkBetween, h1, Ne.symm hn.2.1]
      · refine h3.congr (fun y hy => ?_) (fun y hy => ?_)
        · have hy1 : y ≠ h := by rintro rfl; simp_all
          have hy2 : y ≠ n := by rintro rfl; simp_all
          simp [listAdd, linkBetween, hy1, hy2]
        · have hy1 : y ≠ x := by rintro rfl; simp_all
          have hy2 : y ≠ n := by rintro rfl; simp_all
          simp [listAdd, linkBetween, h1, hy1, hy2]

lemma IsList.addTail {L : Links ν} {h n : ν} {xs : List ν} (hl : IsList L h xs)
    (hn : n ∉ h :: xs) : IsList (listAddTail L n h) h (xs ++ [n]) := by
  obtain ⟨hd, hs⟩ := hl
  have hpm := hs.prev_mem
  have hnp : L.prev h ≠ n := by rintro rfl; exact hn hpm
  simp only [List.mem_cons, not_or] at hn
  have hnd : (h :: (xs ++ [n])).Nodup := by
    simp only [List.nodup_cons, List.mem_append, List.mem_singleton, not_or] at hd ⊢
    refine ⟨⟨hd.1, Ne.symm hn.1⟩, hd.2.append (by simp) ?_⟩
    simpa using hn.2
  refine ⟨hnd, seg_append.mpr ⟨?_, ?_⟩⟩
  · refine hs.retarget hd (fun x hx hxp => ?_) (fun x hx => ?_) ?_ ?_
    · have hxn : x ≠ n := by rintro rfl; simp_all
      simp [listAddTail, linkBetween, hxp, hxn]
    · have hxn : x ≠ n := by rintro rfl; simp_all
      have hxh : x ≠ h := by rintro rfl; simp_all
      simp [listAddTail, linkBetween, hxn, hxh]
    · simp [listAddTail, linkBetween]
    · simp [listAddTail, linkBetween]
  · simp [Seg, listAddTail, linkBetween, Ne.symm hnp, Ne.symm hn.1]

lemma IsList.del {null : ν} {L : Links ν} {h n : ν} {xs ys : List ν}
    (hl : IsList L h (xs ++ n :: ys)) : IsList (listDel null L n) h (xs ++ ys) := by
  obtain ⟨hd, hs⟩ := hl
  obtain ⟨h1, h2⟩ := seg_append.mp hs
  have hd' : (n :: h :: (xs ++ ys)).Nodup := by
    have hperm : (h :: (xs ++ n :: ys)).Perm (n :: h :: (xs ++ ys)) :=
      (List.perm_middle.cons h).trans (List.Perm.swap n h _)
    exact hperm.nodup_iff.mp hd
  obtain ⟨hn, hd''⟩ := List.nodup_cons.mp hd'
  have hpm := h1.prev_mem
  have hpn : L.prev n ≠ n := by
    rintro e; rw [e] at hpm; exact hn (by simp at hpm ⊢; tauto)
  have hdx : (h :: xs).Nodup := hd''.sublist (by simp)
  refine ⟨hd'', ?_⟩
  -- the first part is redirected from `n` to what follows it, the rest is not touched
  have hfirst : ∀ q, L.next n = q → q ≠ n → (∀ x ∈ xs, x ≠ q) →
      Seg (listDel null L n) h xs q := by
    intro q hq hqn hqx
    refine h1.retarget hdx (fun x hx hxp => ?_) (fun x hx => ?_) ?_ ?_
    · have hxn : x ≠ n := by rintro rfl; exact hn (by simp at hx ⊢; tauto)
      simp [listDel, unlink, hxp, hxn]
    · have hxn : x ≠ n := by rintro rfl; exact hn (by simp [hx])
      simp [listDel, unlink, hxn, hq, hqx x hx]
    · simp [listDel, unlink, hpn, hq]
    · simp [listDel, unlink, hqn, hq]
  cases ys with
  | nil =>
      have hhn : h ≠ n := by rintro rfl; simp at hn
      simp only [List.append_nil]
      refine hfirst h h2.1 hhn ?_
      rintro x hx rfl
      exact (List.nodup_cons.mp hdx).1 hx
  | cons y ys =>
      obtain ⟨h3, h4, h5⟩ := h2
      have hyn : y ≠ n := by rintro rfl; simp at hn
      refine seg_append.mpr ⟨hfirst y h3 hyn ?_, ?_⟩
      · rintro x hx rfl
        have := (List.nodup_cons.mp hd'').2
        exact (List.disjoint_of_nodup_append this) hx (by simp)
      · have hdy : (h :: y :: ys).Nodup := hd''.sublist (by simp)
        have hdis := List.disjoint_of_nodup_append (show ((h :: xs) ++ (y :: ys)).Nodup by
          simpa using hd'')
        refine h5.congr (fun x hx => ?_) (fun x hx => ?_)
        · have hxp : x ≠ L.prev n := by rintro rfl; exact hdis hpm hx
          have hxn : x ≠ n := by rintro rfl; exact hn (by simp at hx ⊢; tauto)
          simp [listDel, unlink, hxp, hxn]
        · have hxy : x ≠ y := by
            rintro rfl
            simp only [List.nodup_cons, List.mem_cons, not_or] at hdy hx
            rcases hx with rfl | hx
            · exact hdy.1.1 rfl
            · exact hdy.2.1 hx
          have hxn : x ≠ n := by rintro rfl; exact hn (by simp at hx ⊢; tauto)
          simp [listDel, unlink, hxn, h3, hxy]

/-! ### Many lists -/

lemma linkBetween_off (L : Links ν) {n p q x : ν} (hn : x ≠ n) (hp : x ≠ p) (hq : x ≠ q) :
    (linkBetween L n p q).next x = L.next x ∧ (linkBetween L n p q).prev x = L.prev x := by
  simp [linkBetween, hn, hp, hq]

lemma listDel_off {null : ν} (L : Links ν) {n x : ν} (hn : x ≠ n) (hp : x ≠ L.prev n)
    (hq : x ≠ L.next n) :
    (listDel null L n).next x = L.next x ∧ (listDel null L n).prev x = L.prev x := by
  simp [listDel, unlink, hn, hp, hq]

lemma listInit_off (L : Links ν) {h x : ν} (hx : x ≠ h) :
    (listInit L h).next x = L.next x ∧ (listInit L h).prev x = L.prev x := by
  simp [listInit, hx]

/-- The heads `hs` carry the lists `f`, and no node is on two of them. -/
structure Lists (L : Links ν) (hs : Set ν) (f : ν → List ν) : Prop where
  isList : ∀ h ∈ hs, IsList L h (f h)
  apart : ∀ g ∈ hs, ∀ h ∈ hs, g ≠ h → List.Disjoint (g :: f g) (h :: f h)

/-- A node on none of the lists. -/
def Fresh (hs : Set ν) (f : ν → List ν) (n : ν) : Prop := ∀ h ∈ hs, n ∉ h :: f h

variable {L L' : Links ν} {hs : Set ν} {f : ν → List ν} {h n : ν} {null : ν}

omit [DecidableEq ν] in
lemma Lists.congr (hl : Lists L hs f)
    (hx : ∀ h ∈ hs, ∀ x ∈ h :: f h, L'.next x = L.next x ∧ L'.prev x = L.prev x) :
    Lists L' hs f :=
  ⟨fun h hh => (hl.isList h hh).congr (fun x m => (hx h hh x m).1) (fun x m => (hx h hh x m).2),
    hl.apart⟩

omit [DecidableEq ν] in
lemma Lists.mono {hs' : Set ν} (hl : Lists L hs f) (hsub : hs' ⊆ hs) : Lists L hs' f :=
  ⟨fun h hh => hl.isList h (hsub hh), fun g hg h hh => hl.apart g (hsub hg) h (hsub hh)⟩

omit [DecidableEq ν] in
lemma lists_empty (L : Links ν) (f : ν → List ν) : Lists L ∅ f :=
  ⟨fun _ h => h.elim, fun _ h => h.elim⟩

/-- Changing the links of one list only, and its entries to ones that were on it or on no
list, leaves the family well formed. -/
lemma Lists.update (hl : Lists L hs f) (hh : h ∈ hs) {ys : List ν} (hy : IsList L' h ys)
    (hsub : ∀ x ∈ ys, x ∈ f h ∨ Fresh hs f x)
    (hoff : ∀ g ∈ hs, g ≠ h → ∀ x ∈ g :: f g, L'.next x = L.next x ∧ L'.prev x = L.prev x) :
    Lists L' hs (Function.update f h ys) := by
  have hdis : ∀ g ∈ hs, g ≠ h → List.Disjoint (g :: f g) (h :: ys) := by
    intro g hg hgh x hx hx'
    rcases List.mem_cons.mp hx' with rfl | hx'
    · exact hl.apart g hg _ hh hgh hx (by simp)
    · rcases hsub x hx' with hf | hf
      · exact hl.apart g hg h hh hgh hx (by simp [hf])
      · exact hf g hg hx
  constructor
  · intro g hg
    by_cases hgh : g = h
    · subst hgh; simpa using hy
    · rw [Function.update_of_ne hgh]
      exact (hl.isList g hg).congr (fun x m => (hoff g hg hgh x m).1)
        (fun x m => (hoff g hg hgh x m).2)
  · intro g hg g' hg' hne
    by_cases h1 : g = h <;> by_cases h2 : g' = h
    · exact absurd (h1.trans h2.symm) hne
    · subst h1
      rw [Function.update_self, Function.update_of_ne h2]
      exact (hdis g' hg' h2).symm
    · subst h2
      rw [Function.update_self, Function.update_of_ne h1]
      exact hdis g hg h1
    · rw [Function.update_of_ne h1, Function.update_of_ne h2]
      exact hl.apart g hg g' hg' hne

lemma Lists.init (hl : Lists L hs f) (hn : Fresh hs f n) :
    Lists (listInit L n) (insert n hs) (Function.update f n []) := by
  have hnot : n ∉ hs := fun hm => hn n hm (by simp)
  have hne : ∀ g ∈ hs, g ≠ n := fun g hg e => hnot (e ▸ hg)
  constructor
  · rintro g (rfl | hg)
    · simpa using isList_init L g
    · rw [Function.update_of_ne (hne g hg)]
      have hoff : ∀ x ∈ g :: f g, x ≠ n := by rintro x hx rfl; exact hn g hg hx
      exact (hl.isList g hg).congr (fun x m => (listInit_off L (hoff x m)).1)
        (fun x m => (listInit_off L (hoff x m)).2)
  · rintro g (rfl | hg) g' (rfl | hg') hgg
    · exact absurd rfl hgg
    · rw [Function.update_self, Function.update_of_ne (hne g' hg')]
      simpa using hn g' hg'
    · rw [Function.update_self, Function.update_of_ne (hne g hg)]
      exact (show List.Disjoint [g'] _ by simpa using hn g hg).symm
    · rw [Function.update_of_ne (hne g hg), Function.update_of_ne (hne g' hg')]
      exact hl.apart g hg g' hg' hgg

lemma Lists.linkOff (hl : Lists L hs f) (hh : h ∈ hs) (hn : Fresh hs f n) {p q : ν}
    (hp : p ∈ h :: f h) (hq : q ∈ h :: f h) {g : ν} (hg : g ∈ hs) (hgh : g ≠ h) :
    ∀ x ∈ g :: f g, (linkBetween L n p q).next x = L.next x ∧
      (linkBetween L n p q).prev x = L.prev x := by
  intro x hx
  have hd := hl.apart g hg h hh hgh
  refine linkBetween_off L ?_ ?_ ?_
  · rintro rfl; exact hn g hg hx
  · rintro rfl; exact hd hx hp
  · rintro rfl; exact hd hx hq

lemma Lists.add (hl : Lists L hs f) (hh : h ∈ hs) (hn : Fresh hs f n) :
    Lists (listAdd L n h) hs (Function.update f h (n :: f h)) := by
  have hi := hl.isList h hh
  refine hl.update hh (hi.add (hn h hh)) (fun x hx => ?_) (fun g hg hgh => ?_)
  · rcases List.mem_cons.mp hx with rfl | hx
    · exact Or.inr hn
    · exact Or.inl hx
  · exact hl.linkOff hh hn (by simp) (hi.neighbours (by simp)).2 hg hgh

lemma Lists.addTail (hl : Lists L hs f) (hh : h ∈ hs) (hn : Fresh hs f n) :
    Lists (listAddTail L n h) hs (Function.update f h (f h ++ [n])) := by
  have hi := hl.isList h hh
  refine hl.update hh (hi.addTail (hn h hh)) (fun x hx => ?_) (fun g hg hgh => ?_)
  · rcases List.mem_append.mp hx with hx | hx
    · exact Or.inl hx
    · exact Or.inr (by simpa using (List.mem_singleton.mp hx) ▸ hn)
  · exact hl.linkOff hh hn (hi.neighbours (by simp)).1 (by simp) hg hgh

lemma Lists.del (hl : Lists L hs f) (null : ν) (hh : h ∈ hs) (hn : n ∈ f h) :
    Lists (listDel null L n) hs (Function.update f h ((f h).erase n)) := by
  have hi := hl.isList h hh
  obtain ⟨xs, ys, hxy⟩ := List.append_of_mem hn
  have hnx : n ∉ xs := by
    have hd := (List.nodup_cons.mp hi.nodup).2
    rw [hxy] at hd
    exact fun hx => (List.disjoint_of_nodup_append hd) hx (by simp)
  have he : (f h).erase n = xs ++ ys := by
    rw [hxy, List.erase_append_right _ hnx]; simp
  rw [he]
  refine hl.update hh ?_ (fun x hx => Or.inl ?_) (fun g hg hgh x hx => ?_)
  · exact IsList.del (hxy ▸ hi)
  · rw [hxy]; simp only [List.mem_append, List.mem_cons] at hx ⊢; tauto
  · have hd := hl.apart g hg h hh hgh
    have hnb := hi.neighbours (n := n) (by simp [hn])
    refine listDel_off L ?_ ?_ ?_
    · rintro rfl; exact hd hx (by simp [hn])
    · rintro rfl; exact hd hx hnb.1
    · rintro rfl; exact hd hx hnb.2

/-- An entry that has been unlinked is on no list. -/
lemma Lists.fresh_del (hl : Lists L hs f) (hh : h ∈ hs) (hn : n ∈ f h) :
    Fresh hs (Function.update f h ((f h).erase n)) n := by
  have hnd := List.nodup_cons.mp (hl.isList h hh).nodup
  intro g hg
  by_cases hgh : g = h
  · subst hgh
    rw [Function.update_self, List.mem_cons, not_or]
    exact ⟨fun e => hnd.1 (e ▸ hn), fun hm => (List.Nodup.mem_erase_iff hnd.2).mp hm |>.1 rfl⟩
  · rw [Function.update_of_ne hgh]
    exact fun hm => hl.apart g hg h hh hgh hm (by simp [hn])

/-- The lists after an entry has been unlinked, by membership. -/
lemma Lists.remove (hl : Lists L hs f) (null : ν) {g : ν} (hg : g ∈ hs) (hn : n ∈ f g) :
    ∃ f', Lists (listDel null L n) hs f' ∧ (∀ k ∈ hs, ∀ x, x ∈ f' k ↔ x ∈ f k ∧ x ≠ n) ∧
      (∀ k, k ≠ g → f' k = f k) ∧ Fresh hs f' n := by
  have hfresh := hl.fresh_del hg hn
  refine ⟨_, hl.del null hg hn, fun k hk x => ?_, fun k h1 => Function.update_of_ne h1 _ _, hfresh⟩
  by_cases hx : x = n
  · subst hx
    have hoff : x ∉ Function.update f g ((f g).erase x) k := fun hm =>
      hfresh k hk (List.mem_cons_of_mem _ hm)
    exact ⟨fun hm => absurd hm hoff, fun hm => absurd rfl hm.2⟩
  · rw [and_iff_left hx]
    by_cases hkg : k = g
    · subst hkg
      rw [Function.update_self, List.mem_erase_of_ne hx]
    · rw [Function.update_of_ne hkg]

/-- An entry that is moved leaves its list for the other one, and nothing else changes. -/
lemma Lists.move (hl : Lists L hs f) (null : ν) {g : ν} (hg : g ∈ hs) (hn : n ∈ f g)
    (hh : h ∈ hs) : ∃ f', Lists (listMove null L n h) hs f' ∧
      (∀ k ∈ hs, ∀ x, x ∈ f' k ↔ if x = n then k = h else x ∈ f k) ∧
      ∀ k, k ≠ g → k ≠ h → f' k = f k := by
  obtain ⟨f1, hl1, hmem, hoff, hfresh⟩ := hl.remove null hg hn
  refine ⟨_, hl1.add hh hfresh, fun k hk x => ?_, fun k h1 h2 => ?_⟩
  · have hmem := hmem k hk x
    by_cases hkh : k = h
    · subst hkh
      rw [Function.update_self, List.mem_cons, hmem]
      split_ifs with hx <;> simp [hx]
    · rw [Function.update_of_ne hkh, hmem]
      split_ifs with hx <;> simp [hx, hkh]
  · rw [Function.update_of_ne h2, hoff k h1]

lemma Lists.first (hl : Lists L hs f) (hh : h ∈ hs) : listFirst L h = (f h).head? :=
  (hl.isList h hh).first

end Elfboot.Circular
