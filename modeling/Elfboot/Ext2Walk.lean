import Elfboot.Ext2Dir

/-!
Where the walk of `ext2fs_finddir` goes, over any contents of a directory.

A record has a size or ends the directory; the walk looks at its header, and at its name where
it has a size.
-/

namespace Elfboot.Ext2Walk

open Elfboot.Word Elfboot.Buffer Elfboot.Str Elfboot.Loop Elfboot.Super Elfboot.Ext2
  Elfboot.Ext2Read Elfboot.Ext2Dir

/-- The header of the record at `pos` is in the directory and so is its name, if it has one. -/
def Inside (mem : Bytes) (size pos : ℕ) : Prop :=
  pos + 8 ≤ size ∧ (le16 mem (pos + 4) ≠ 0 → pos + 8 + (mem (pos + 6)).toNat ≤ size)

/-- The records of a directory of `size` bytes. -/
inductive RecordAt (mem : Bytes) (size : ℕ) : ℕ → Prop
  | first (h : Inside mem size 0) : RecordAt mem size 0
  | next {pos : ℕ} (h : RecordAt mem size pos) (hsize : le16 mem (pos + 4) ≠ 0)
      (hin : Inside mem size (pos + le16 mem (pos + 4))) :
      RecordAt mem size (pos + le16 mem (pos + 4))

/-- The directory has a record with the name. -/
def HasName (mem : Bytes) (size : ℕ) (name : List UInt8) : Prop :=
  ∃ pos, RecordAt mem size pos ∧ le16 mem (pos + 4) ≠ 0 ∧
    (mem (pos + 6)).toNat = name.length ∧ Has mem (pos + 8) name

/-- The walk ends, all it looks at is in the directory, and it finds nothing where no record
has the name. -/
structure WalksInside (sb : Superblock) (esb : Ext2Superblock) (inode : Inode) (dbeg : Bytes)
    (m m' : Bmalloc) (bdesc mem : Bytes) (name : List UInt8) : Prop where
  ends : ∃ k found, ext2fsFinddir sb esb inode (some dbeg) m m' bdesc name k = some found
  inside : inode.sizeLower ≠ 0 → ∀ pos, Reaches (finddirTurn sb esb m' bdesc mem name) 0 pos →
    Inside mem inode.sizeLower pos
  absent : ¬ HasName mem inode.sizeLower name → ∀ k found,
    ext2fsFinddir sb esb inode (some dbeg) m m' bdesc name k = some found → found = none

/-- The records from `pos` on are in the directory, up to one without a size or one that is
taken for the name; and where that one is taken, `ok` is so of it. -/
inductive Stays (mem : Bytes) (size : ℕ) (name : List UInt8) (ok : ℕ → Prop) : ℕ → Prop
  | stop {pos : ℕ} (hin : Inside mem size pos) (hsize : le16 mem (pos + 4) = 0) :
      Stays mem size name ok pos
  | take {pos : ℕ} (hin : Inside mem size pos) (hsize : le16 mem (pos + 4) ≠ 0)
      (hname : strncmp mem (pos + 8) name (mem (pos + 6)).toNat = 0) (hok : ok pos) :
      Stays mem size name ok pos
  | step {pos : ℕ} (hin : Inside mem size pos) (hsize : le16 mem (pos + 4) ≠ 0)
      (hname : strncmp mem (pos + 8) name (mem (pos + 6)).toNat ≠ 0)
      (hnext : Stays mem size name ok (u32 (pos + le16 mem (pos + 4)))) :
      Stays mem size name ok pos

variable {sb : Superblock} {esb : Ext2Superblock} {inode : Inode} {dbeg mem bdesc : Bytes}
  {m m' : Bmalloc} {name : List UInt8} {size pos : ℕ} {ok : ℕ → Prop} {found : Option FsNode}

lemma turn_take (hsize : le16 mem (pos + 4) ≠ 0)
    (hname : strncmp mem (pos + 8) name (mem (pos + 6)).toNat = 0) :
    finddirTurn sb esb m bdesc mem name pos =
      some (.leave (ext2fsAllocDent sb esb m bdesc (le32 mem pos) name)) :=
  (if_neg hsize).trans (if_neg (not_not.mpr hname))

/-- What the node at a record that is taken may be: there is a record with the name, or no node
can be made. -/
def Taken (sb : Superblock) (esb : Ext2Superblock) (m : Bmalloc) (bdesc mem : Bytes) (size : ℕ)
    (name : List UInt8) (pos : ℕ) : Prop :=
  HasName mem size name ∨ ext2fsAllocDent sb esb m bdesc (le32 mem pos) name = none

/-- A walk that stays inside the directory ends, finds nothing without reason, and looks at
nothing outside. -/
lemma Stays.walk (h : Stays mem size name (Taken sb esb m bdesc mem size name) pos) :
    (∃ found, Ends (finddirTurn sb esb m bdesc mem name) pos found ∧
      (HasName mem size name ∨ found = none)) ∧
    ∀ p, Reaches (finddirTurn sb esb m bdesc mem name) pos p → Inside mem size p := by
  induction h with
  | stop hin hsize =>
    have hturn : finddirTurn sb esb m bdesc mem name _ = some (.leave none) := turn_stop hsize
    refine ⟨⟨none, (ends_leave hturn).2 rfl, Or.inr rfl⟩, fun p hp => ?_⟩
    rwa [(reaches_leave hturn).1 hp]
  | take hin hsize hname hok =>
    have hturn : finddirTurn sb esb m bdesc mem name _ = _ := turn_take hsize hname
    refine ⟨⟨_, (ends_leave hturn).2 rfl, hok⟩, fun p hp => ?_⟩
    rwa [(reaches_leave hturn).1 hp]
  | step hin hsize hname hnext ih =>
    obtain ⟨⟨found, hends, hfound⟩, hinside⟩ := ih
    have hturn : finddirTurn sb esb m bdesc mem name _ = _ := turn_pass hsize hname
    refine ⟨⟨found, (ends_next hturn).2 hends, hfound⟩, fun p hp => ?_⟩
    rcases (reaches_next hturn).1 hp with rfl | hp
    · exact hin
    · exact hinside p hp

/-- A walk that ends and looks at nothing outside the directory stays inside it. -/
lemma stays_of_walk (hends : Ends (finddirTurn sb esb m bdesc mem name) pos found)
    (hfound : HasName mem size name ∨ found = none)
    (hinside : ∀ p, Reaches (finddirTurn sb esb m bdesc mem name) pos p → Inside mem size p) :
    Stays mem size name (Taken sb esb m bdesc mem size name) pos := by
  refine ends_induction (P := fun pos =>
      (∀ p, Reaches (finddirTurn sb esb m bdesc mem name) pos p → Inside mem size p) →
      Stays mem size name (Taken sb esb m bdesc mem size name) pos)
    hends (fun pos hturn hinside => ?_) (fun pos pos' hturn ih hinside => ?_) hinside
  · have hin := hinside pos (reaches_self _ _)
    by_cases hsize : le16 mem (pos + 4) = 0
    · exact .stop hin hsize
    · by_cases hname : strncmp mem (pos + 8) name (mem (pos + 6)).toNat = 0
      · rw [turn_take hsize hname] at hturn
        cases hturn
        exact .take hin hsize hname hfound
      · rw [turn_pass hsize hname] at hturn
        cases hturn
  · have hin := hinside pos (reaches_self _ _)
    by_cases hsize : le16 mem (pos + 4) = 0
    · rw [turn_stop hsize] at hturn
      cases hturn
    · by_cases hname : strncmp mem (pos + 8) name (mem (pos + 6)).toNat = 0
      · rw [turn_take hsize hname] at hturn
        cases hturn
      · have hpass : finddirTurn sb esb m bdesc mem name _ = _ := turn_pass hsize hname
        rw [hpass] at hturn
        cases hturn
        exact .step hin hsize hname (ih fun p hp => hinside p ((reaches_next hpass).2 (Or.inr hp)))

lemma finddir_read (esb : Ext2Superblock) (m' : Bmalloc) (bdesc : Bytes) (name : List UInt8)
    (hread : ext2fsInodeRead sb inode m 0 inode.sizeLower dbeg = (inode.sizeLower, mem)) (k : ℕ) :
    ext2fsFinddir sb esb inode (some dbeg) m m' bdesc name k =
      if inode.sizeLower = 0 then some none
      else loop (finddirTurn sb esb m' bdesc mem name) k 0 := by
  unfold ext2fsFinddir
  dsimp only
  rw [hread, if_neg (not_not.mpr rfl)]

/-- **The walk stays inside the directory**, over any contents that have been read, exactly if
the directory is empty or its records are inside it up to one without a size, or to one that
is taken where a record has the name or no node can be made. -/
theorem walk_inside_iff (sb : Superblock) (esb : Ext2Superblock) (inode : Inode)
    (dbeg : Bytes) (m m' : Bmalloc) (bdesc mem : Bytes) (name : List UInt8)
    (hread : ext2fsInodeRead sb inode m 0 inode.sizeLower dbeg = (inode.sizeLower, mem)) :
    WalksInside sb esb inode dbeg m m' bdesc mem name ↔
      inode.sizeLower = 0 ∨ Stays mem inode.sizeLower name
        (Taken sb esb m' bdesc mem inode.sizeLower name) 0 := by
  have hfind := finddir_read esb m' bdesc name hread
  rcases Nat.eq_zero_or_pos inode.sizeLower with h0 | hpos
  · simp only [if_pos h0] at hfind
    refine iff_of_true ⟨⟨0, none, hfind 0⟩, fun hne => absurd h0 hne, fun _ k found h => ?_⟩
      (Or.inl h0)
    rw [hfind k] at h
    exact (Option.some_inj.1 h).symm
  · simp only [if_neg hpos.ne'] at hfind
    rw [or_iff_right hpos.ne']
    constructor
    · rintro ⟨⟨k, found, h⟩, hinside, habsent⟩
      have hfound : HasName mem inode.sizeLower name ∨ found = none := by
        by_cases hname : HasName mem inode.sizeLower name
        · exact Or.inl hname
        · exact Or.inr (habsent hname k found h)
      rw [hfind k] at h
      exact stays_of_walk ⟨k, h⟩ hfound (hinside hpos.ne')
    · intro h
      obtain ⟨⟨found, hends, hfound⟩, hinside⟩ := h.walk
      obtain ⟨k, hk⟩ := hends
      refine ⟨⟨k, found, (hfind k).trans hk⟩, fun _ => hinside, fun hname k' found' h' => ?_⟩
      rw [hfind k'] at h'
      rw [ends_unique ⟨k', h'⟩ ⟨k, hk⟩]
      exact hfound.resolve_left hname

/-- The directory of one record, for the directory itself. -/
theorem walk_inside_iff_dot :
    WalksInside dotSuper ⟨8, 128⟩ dotInode (fun _ => 0) plenty plenty (fun _ => 0)
        (loaded dotSuper (· + 1) 12 fun _ => 0) [46] ↔
      dotInode.sizeLower = 0 ∨ Stays (loaded dotSuper (· + 1) 12 fun _ => 0) 12 [46]
        (Taken dotSuper ⟨8, 128⟩ plenty (fun _ => 0) (loaded dotSuper (· + 1) 12 fun _ => 0) 12
          [46]) 0 :=
  walk_inside_iff dotSuper ⟨8, 128⟩ dotInode _ plenty plenty _ _ [46] (dot_readable.read _)

/-- For another name the walk goes on behind the record, where the directory ends. -/
theorem not_walk_inside :
    ¬ WalksInside dotSuper ⟨8, 128⟩ dotInode (fun _ => 0) plenty plenty (fun _ => 0)
      (loaded dotSuper (· + 1) 12 fun _ => 0) [97] := by
  intro h
  have hturn : finddirTurn dotSuper ⟨8, 128⟩ plenty (fun _ => 0)
      (loaded dotSuper (· + 1) 12 fun _ => 0) [97] 0 = some (.next 12) := by
    have hnext : u32 (0 + le16 (loaded dotSuper (· + 1) 12 fun _ => 0) (0 + 4)) = 12 := by decide
    rw [turn_pass (by decide) (by decide), hnext]
  have hin := h.inside (by decide) 12 ((reaches_next hturn).2 (Or.inr (reaches_self _ _)))
  exact absurd hin.1 (by decide)

end Elfboot.Ext2Walk
