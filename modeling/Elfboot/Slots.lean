import Mathlib

/-!
Items that are known only by the slot they are kept in.

To take a slot is to put a new item there; to release it is to give up whatever the slot
holds by then. Users may be inside one another, the last to take being the first to release.
Where nobody takes the slot of a user who has not released yet, each gives up the own item.
-/

namespace Elfboot.Slots

variable {ι α : Type*}

/-- The slots, and the books about them: who has taken and not released, which slots were
taken and which were in use then, the items put there, and for each release the item of the
one who released and the item given up. -/
structure Books (ι α : Type*) where
  cell : ι → α
  opened : List (ι × α)
  taken : List (ι × List ι)
  items : List α
  released : List (Option α × α)

def fresh (cell : ι → α) : Books ι α := ⟨cell, [], [], [], []⟩

def take [DecidableEq ι] (b : Books ι α) (i : ι) (a : α) : Books ι α where
  cell := Function.update b.cell i a
  opened := (i, a) :: b.opened
  taken := (i, b.opened.map Prod.fst) :: b.taken
  items := a :: b.items
  released := b.released

def release (b : Books ι α) (i : ι) : Books ι α :=
  { b with
    opened := b.opened.tail
    released := (b.opened.head?.map Prod.snd, b.cell i) :: b.released }

/-- Nobody has taken a slot in use. -/
def Apart (b : Books ι α) : Prop := ∀ t ∈ b.taken, t.1 ∉ t.2

instance [DecidableEq ι] (b : Books ι α) : Decidable (Apart b) :=
  inferInstanceAs (Decidable (∀ t ∈ b.taken, _))

/-- Each release has given up the own item, and each item has been given up once or is with
one who has not released yet. -/
structure Right (b : Books ι α) : Prop where
  own : ∀ r ∈ b.released, r.1 = some r.2
  once : b.items.Perm (b.released.map Prod.snd ++ b.opened.map Prod.snd)

/-- The books are right, and the slots in use hold the items of their users. -/
structure Inv (b : Books ι α) : Prop extends Right b where
  held : ∀ o ∈ b.opened, b.cell o.1 = o.2

variable {b b' b'' : Books ι α} {i : ι} {a : α}

lemma inv_fresh (cell : ι → α) : Inv (fresh cell) where
  own := by simp [fresh]
  once := .refl _
  held := by simp [fresh]

lemma Inv.release {os : List (ι × α)} (h : Inv b) (ho : b.opened = (i, a) :: os) :
    Inv (release b i) := by
  have hcell : b.cell i = a := h.held (i, a) (ho ▸ List.mem_cons_self)
  constructor
  · constructor
    · intro r hr
      rcases List.mem_cons.mp hr with heq | hr
      · rw [heq, ho, hcell]
        rfl
      · exact h.own r hr
    · have honce := h.once
      rw [ho] at honce
      show b.items.Perm ((b.cell i :: b.released.map Prod.snd) ++ b.opened.tail.map Prod.snd)
      rw [ho, hcell]
      exact honce.trans List.perm_middle
  · intro o hmem
    exact h.held o (List.mem_of_mem_tail hmem)

lemma Inv.take [DecidableEq ι] (h : Inv b) (hi : i ∉ b.opened.map Prod.fst) :
    Inv (take b i a) where
  own := h.own
  once := (h.once.cons a).trans List.perm_middle.symm
  held o ho := by
    rcases List.mem_cons.mp ho with heq | ho
    · rw [heq]
      exact Function.update_self ..
    · have hne : o.1 ≠ i := fun heq => hi (heq ▸ List.mem_map_of_mem ho)
      exact (Function.update_of_ne hne ..).trans (h.held o ho)

/-! ### Steps that keep the books right -/

lemma Apart.mono (h : Apart b') (hs : b.taken <:+ b'.taken) : Apart b :=
  fun t ht => h t (hs.subset ht)

/-- What is done between two states keeps the books right where nobody has taken a slot in
use. -/
structure Keeps (b b' : Books ι α) : Prop where
  taken : b.taken <:+ b'.taken
  inv : Apart b' → Inv b → Inv b'

lemma Keeps.refl (b : Books ι α) : Keeps b b := ⟨List.suffix_refl _, fun _ h => h⟩

lemma Keeps.trans (h : Keeps b b') (h' : Keeps b' b'') : Keeps b b'' where
  taken := h.taken.trans h'.taken
  inv ha hi := h'.inv ha (h.inv (ha.mono h'.taken) hi)

lemma keeps_take [DecidableEq ι] (b : Books ι α) (i : ι) (a : α) : Keeps b (take b i a) where
  taken := List.suffix_cons ..
  inv ha hi := hi.take (ha _ List.mem_cons_self)

lemma keeps_release {os : List (ι × α)} (ho : b.opened = (i, a) :: os) : Keeps b (release b i) where
  taken := List.suffix_refl _
  inv _ hi := hi.release ho

end Elfboot.Slots
