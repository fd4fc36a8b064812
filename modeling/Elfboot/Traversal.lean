import Mathlib

/-!
Depth-first traversal of groups. A group has its items, and an item may lead to a further
group. An item that is on the list already is passed over; a new one is put on the list, and
the group it leads to is traversed before the next item of its own group is taken up.
-/

namespace Elfboot.Traversal

variable {α β ι σ : Type*} (items : β → List α) (next : α → Option β)

section Defs

variable [DecidableEq α]

/-- An item is taken up, with `scan` for the group it leads to. -/
def visit (scan : List α → β → Option (List α)) (vis : List α) (a : α) : Option (List α) :=
  if a ∈ vis then some vis
  else
    match next a with
    | none => some (a :: vis)
    | some b => scan (a :: vis) b

/-- The traversal of a group, with groups below one another to depth `k` at most. -/
def scan : ℕ → List α → β → Option (List α)
  | 0, _, _ => none
  | k + 1, vis, b => (items b).foldlM (visit next (scan k)) vis

def scanAll (k : ℕ) (roots : List β) : Option (List α) := roots.foldlM (scan items next k) []

end Defs

def Link (b c : β) : Prop := ∃ a ∈ items b, next a = some c

def Reached (roots : List β) (b : β) : Prop :=
  ∃ r ∈ roots, Relation.ReflTransGen (Link items next) r b

/-- The items of the groups that the roots lead to. -/
def Found (roots : List β) (a : α) : Prop := ∃ b, Reached items next roots b ∧ a ∈ items b

variable {items next} {roots : List β}

lemma reached_root {b : β} (h : b ∈ roots) : Reached items next roots b := ⟨b, h, .refl⟩

lemma Reached.tail {b c : β} {a : α} (h : Reached items next roots b) (ha : a ∈ items b)
    (hn : next a = some c) : Reached items next roots c := by
  obtain ⟨r, hr, hb⟩ := h
  exact ⟨r, hr, hb.tail ⟨a, ha, hn⟩⟩

lemma Found.leads {a : α} {c : β} (h : Found items next roots a) (hn : next a = some c) :
    Reached items next roots c := by
  obtain ⟨b, hb, ha⟩ := h
  exact hb.tail ha hn

/-- A loop whose turns have more results has more. -/
lemma foldlM_mono {f g : σ → ι → Option σ}
    (h : ∀ v x w, f v x = some w → g v x = some w) (xs : List ι) {v w : σ}
    (hf : xs.foldlM f v = some w) : xs.foldlM g v = some w := by
  induction xs generalizing v with
  | nil => exact hf
  | cons x xs ih =>
    rw [List.foldlM_cons, Option.bind_eq_bind, Option.bind_eq_some_iff] at hf ⊢
    obtain ⟨u, hu, hw⟩ := hf
    exact ⟨u, h v x u hu, ih hw⟩

/-- A loop seen through what its states stand for. -/
lemma foldlM_image {τ : Type*} {h : σ → τ} {f : σ → ι → Option σ} {g : τ → ι → Option τ}
    (xs : List ι) (hfg : ∀ v, ∀ x ∈ xs, (f v x).map h = g (h v) x) (v : σ) :
    (xs.foldlM f v).map h = xs.foldlM g (h v) := by
  induction xs generalizing v with
  | nil => rfl
  | cons x xs ih =>
    rw [List.foldlM_cons, List.foldlM_cons, ← hfg v x List.mem_cons_self]
    cases f v x with
    | none => rfl
    | some u => exact ih (fun w y hy => hfg w y (List.mem_cons_of_mem x hy)) u

/-- A loop in a loop is one loop. -/
lemma foldlM_flatMap {κ : Type*} {f : σ → ι → Option σ} {g : κ → List ι} (xs : List κ) (v : σ) :
    (xs.flatMap g).foldlM f v = xs.foldlM (fun v x => (g x).foldlM f v) v := by
  induction xs generalizing v with
  | nil => rfl
  | cons x xs ih =>
    rw [List.flatMap_cons, List.foldlM_append, List.foldlM_cons]
    congr 1
    ext u : 1
    exact ih u

/-- What a part of a traversal does to the list: it keeps what is there, and adds only what is
found and leads to groups that are on the list afterwards. -/
structure Grown (items : β → List α) (next : α → Option β) (roots : List β)
    (vis vis' : List α) : Prop where
  keeps : vis ⊆ vis'
  nodup : vis.Nodup → vis'.Nodup
  found : ∀ a ∈ vis', a ∈ vis ∨ Found items next roots a
  closed : ∀ a ∈ vis', a ∉ vis → ∀ b, next a = some b → items b ⊆ vis'

lemma Grown.refl (vis : List α) : Grown items next roots vis vis where
  keeps := List.Subset.refl vis
  nodup := id
  found _ ha := .inl ha
  closed _ ha hn := absurd ha hn

lemma Grown.trans {u v w : List α} (h : Grown items next roots u v)
    (h' : Grown items next roots v w) : Grown items next roots u w where
  keeps := List.Subset.trans h.keeps h'.keeps
  nodup hu := h'.nodup (h.nodup hu)
  found a ha := (h'.found a ha).elim (h.found a) .inr
  closed a ha hn b hb := by
    by_cases hv : a ∈ v
    · exact List.Subset.trans (h.closed a hv hn b hb) h'.keeps
    · exact h'.closed a ha hv b hb

lemma closed_reached {vis : List α} (hr : ∀ r ∈ roots, items r ⊆ vis)
    (hc : ∀ a ∈ vis, ∀ b, next a = some b → items b ⊆ vis) {b : β}
    (h : Reached items next roots b) : items b ⊆ vis := by
  obtain ⟨r, hmem, hb⟩ := h
  induction hb with
  | refl => exact hr r hmem
  | tail _ hl ih =>
    obtain ⟨a, ha, hn⟩ := hl
    exact hc a (ih ha) _ hn

variable [DecidableEq α]

/-- How many items may still be added. -/
def rest (U : Finset α) (vis : List α) : ℕ := (U \ vis.toFinset).card

lemma rest_le {U : Finset α} {u v : List α} (h : u ⊆ v) : rest U v ≤ rest U u := by
  apply Finset.card_le_card
  apply Finset.sdiff_subset_sdiff le_rfl
  intro a ha
  exact List.mem_toFinset.mpr (h (List.mem_toFinset.mp ha))

lemma rest_cons {U : Finset α} {vis : List α} {a : α} (hU : a ∈ U) (ha : a ∉ vis) :
    rest U (a :: vis) < rest U vis := by
  apply Finset.card_lt_card
  rw [Finset.ssubset_iff_of_subset]
  · exact ⟨a, by simp [hU, ha], by simp⟩
  · apply Finset.sdiff_subset_sdiff le_rfl
    simp

lemma Grown.cons {a : α} {vis : List α} (ha : a ∉ vis) (hf : Found items next roots a)
    {vis' : List α} (hg : Grown items next roots (a :: vis) vis')
    (hc : ∀ b, next a = some b → items b ⊆ vis') : Grown items next roots vis vis' where
  keeps _ hx := hg.keeps (List.mem_cons_of_mem _ hx)
  nodup hn := hg.nodup (List.nodup_cons.mpr ⟨ha, hn⟩)
  found x hx := by
    rcases hg.found x hx with h | h
    · rcases List.mem_cons.mp h with heq | h
      · exact .inr (heq ▸ hf)
      · exact .inl h
    · exact .inr h
  closed x hx hn b hb := by
    by_cases heq : x = a
    · exact hc b (heq ▸ hb)
    · exact hg.closed x hx (by simp [heq, hn]) b hb

/-- **The rule for a loop of a traversal**: where each turn grows the list and brings `Has`
about, which a longer list keeps, the loop does so for all its turns. -/
lemma foldlM_grown {U : Finset α} {m : ℕ} (f : List α → ι → Option (List α))
    (Has : ι → List α → Prop) (hmono : ∀ x u v, u ⊆ v → Has x u → Has x v) (xs : List ι)
    (hf : ∀ x ∈ xs, ∀ vis, rest U vis ≤ m →
      ∃ vis', f vis x = some vis' ∧ Grown items next roots vis vis' ∧ Has x vis')
    {vis : List α} (hm : rest U vis ≤ m) :
    ∃ vis', xs.foldlM f vis = some vis' ∧ Grown items next roots vis vis' ∧
      ∀ x ∈ xs, Has x vis' := by
  induction xs generalizing vis with
  | nil => exact ⟨vis, rfl, Grown.refl vis, by simp⟩
  | cons x xs ih =>
    obtain ⟨v, hv, hg, hx⟩ := hf x List.mem_cons_self vis hm
    obtain ⟨w, hw, hg', hxs⟩ := ih (fun y hy => hf y (List.mem_cons_of_mem x hy))
      ((rest_le hg.keeps).trans hm)
    refine ⟨w, by simp [List.foldlM_cons, hv, hw], hg.trans hg', ?_⟩
    intro y hy
    rcases List.mem_cons.mp hy with heq | hy
    · exact heq ▸ hmono x v w hg'.keeps hx
    · exact hxs y hy

/-- Taking up one item, where the traversals below it do their work. -/
lemma visit_grown {U : Finset α} (hU : ∀ a, Found items next roots a → a ∈ U) {k : ℕ}
    {sc : List α → β → Option (List α)}
    (hsc : ∀ b, Reached items next roots b → ∀ vis, rest U vis < k →
      ∃ vis', sc vis b = some vis' ∧ Grown items next roots vis vis' ∧ items b ⊆ vis')
    {a : α} (ha : Found items next roots a) {vis : List α} (hk : rest U vis ≤ k) :
    ∃ vis', visit next sc vis a = some vis' ∧ Grown items next roots vis vis' ∧ a ∈ vis' := by
  by_cases hmem : a ∈ vis
  · exact ⟨vis, by simp [visit, hmem], Grown.refl vis, hmem⟩
  have hlt := rest_cons (hU a ha) hmem
  cases hn : next a with
  | none =>
    refine ⟨a :: vis, by simp [visit, hmem, hn], ?_, List.mem_cons_self⟩
    exact (Grown.refl _).cons hmem ha (by simp [hn])
  | some b =>
    obtain ⟨vis', heq, hg, hb⟩ := hsc b (ha.leads hn) (a :: vis) (by omega)
    refine ⟨vis', by simp [visit, hmem, hn, heq], ?_, hg.keeps List.mem_cons_self⟩
    apply hg.cons hmem ha
    intro c hc
    rw [hn, Option.some.injEq] at hc
    exact hc ▸ hb

lemma scan_grown {U : Finset α} (hU : ∀ a, Found items next roots a → a ∈ U) (k : ℕ) :
    ∀ b, Reached items next roots b → ∀ vis, rest U vis < k →
      ∃ vis', scan items next k vis b = some vis' ∧ Grown items next roots vis vis' ∧
        items b ⊆ vis' := by
  induction k with
  | zero => exact fun _ _ _ h => absurd h (Nat.not_lt_zero _)
  | succ k ih =>
    intro b hb vis hk
    exact foldlM_grown (visit next (scan items next k)) (fun a v => a ∈ v)
      (fun a u v huv h => huv h) (items b)
      (fun a ha w hw => visit_grown hU ih ⟨b, hb, ha⟩ hw) (Nat.lt_succ_iff.mp hk)

/-- **A traversal ends and finds each item once**, whatever leads back to where. -/
theorem scanAll_finds {U : Finset α} (hU : ∀ a, Found items next roots a → a ∈ U) {k : ℕ}
    (hk : U.card < k) :
    ∃ vis, scanAll items next k roots = some vis ∧ vis.Nodup ∧
      ∀ a, a ∈ vis ↔ Found items next roots a := by
  have hrest : rest U [] ≤ U.card := by simp [rest]
  obtain ⟨vis, heq, hg, hr⟩ := foldlM_grown (scan items next k) (fun b v => items b ⊆ v)
    (fun b u v huv h => List.Subset.trans h huv) roots
    (fun b hb vis hv => scan_grown hU k b (reached_root hb) vis (by omega)) hrest
  refine ⟨vis, heq, hg.nodup List.nodup_nil, ?_⟩
  intro a
  constructor
  · intro ha
    exact (hg.found a ha).resolve_left List.not_mem_nil
  · intro ha
    obtain ⟨b, hb, hab⟩ := ha
    exact closed_reached hr (fun x hx => hg.closed x hx List.not_mem_nil) hb hab

end Elfboot.Traversal
