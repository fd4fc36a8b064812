import Elfboot.Ext2Mount

/-!
What a failed lookup or mount of an ext2 file system leaves allocated.
-/

namespace Elfboot.Ext2Leak

open Elfboot.Word Elfboot.Buffer Elfboot.Str Elfboot.Loop Elfboot.Objects Elfboot.Ext2Mount
open Elfboot.Ext2 (Inode)
open Elfboot.Ext2Dir (Ext2Superblock sizeofFsNode)

variable {env : Env} {sb : Superblock} {esb : Ext2Superblock} {inode : Inode} {h h' : Heap}

/-! ### What the reading functions leave -/

lemma keeps_divide (a b : ℕ) : Keeps (divide a b) := by
  unfold divide
  split_ifs
  · exact keeps_trap
  · exact keeps_pure _

lemma keeps_bdevRead (bdLogs sector blknum : ℕ) (buffer : Bytes) :
    Keeps (bdevRead env bdLogs sector blknum buffer) := keeps_sense _

lemma keeps_readBlock (blkidx : ℕ) (buffer : Bytes) :
    Keeps (superblockReadBlock env sb blkidx buffer) := keeps_bdevRead _ _ _ _

lemma keeps_readOffsetLoop (blkidx n blkoff blkmod bufoff length : ℕ) (blkbuf buffer : Bytes) :
    Keeps (readOffsetLoop env sb blkidx n blkoff blkmod bufoff length blkbuf buffer) := by
  induction n generalizing blkoff blkmod bufoff length blkbuf buffer with
  | zero => exact keeps_pure _
  | succ n ih =>
    refine (keeps_readBlock _ _).bind fun read => ?_
    cases read with
    | none => exact keeps_pure _
    | some blkbuf => exact ih _ _ _ _ _ _

lemma keeps_readOffset (offset length : ℕ) (buffer : Bytes) :
    Keeps (superblockReadOffset env sb offset length buffer) := by
  refine (keeps_divide _ _).bind fun qr => ?_
  intro h a h' heq
  rcases allocate_bind.1 heq with ⟨-, heq⟩ | ⟨old, -, heq⟩
  · exact (same_tick h).trans (keeps_pure _ _ _ _ heq)
  · exact (keeps_readOffsetLoop _ _ _ _ _ _ _ _).release keeps_pure heq

lemma keeps_indirectLoop (cblock blevel iblock : ℕ) (buffer : Bytes) :
    Keeps (indirectLoop env sb cblock blevel iblock buffer) := by
  induction blevel generalizing iblock buffer with
  | zero => exact keeps_pure _
  | succ blevel ih =>
    refine (keeps_readBlock _ _).bind fun read => ?_
    cases read with
    | none => exact keeps_pure _
    | some buffer =>
      exact (keeps_divide _ _).bind fun blk => (keeps_divide _ _).bind fun idx => ih _ _

lemma keeps_inodeBlockLoop (buffer : Bytes) (n i blkmlp cblock blkidx : ℕ) :
    Keeps (inodeBlockLoop env sb inode buffer n i blkmlp cblock blkidx) := by
  induction n generalizing i blkmlp cblock blkidx with
  | zero => exact keeps_pure _
  | succ n ih =>
    refine (keeps_divide _ _).bind fun blk => ?_
    dsimp only
    split_ifs
    · exact ih _ _ _ _
    · exact keeps_indirectLoop _ _ _ _

lemma keeps_inodeBlock (offset : ℕ) : Keeps (ext2fsInodeBlock env sb inode offset) := by
  refine (keeps_divide _ _).bind fun blk => ?_
  dsimp only
  split_ifs
  · exact keeps_pure _
  · intro h a h' heq
    rcases allocate_bind.1 heq with ⟨-, heq⟩ | ⟨old, -, heq⟩
    · exact (same_tick h).trans (keeps_pure _ _ _ _ heq)
    · exact (keeps_inodeBlockLoop _ _ _ _ _ _).release keeps_pure heq

lemma keeps_inodeReadLoop (sector n blkoff ibloff bufoff length : ℕ) (iblock buffer : Bytes) :
    Keeps (inodeReadLoop env sb inode sector n blkoff ibloff bufoff length iblock buffer) := by
  induction n generalizing blkoff ibloff bufoff length iblock buffer with
  | zero => exact keeps_pure _
  | succ n ih =>
    unfold inodeReadLoop
    by_cases hlength : length = 0
    · rw [if_pos hlength]
      exact keeps_pure _
    · rw [if_neg hlength]
      refine (keeps_inodeBlock _).bind fun blkidx => ?_
      by_cases hblk : blkidx = 0
      · rw [if_pos hblk]
        exact keeps_pure _
      · rw [if_neg hblk]
        refine (keeps_readBlock _ _).bind fun read => ?_
        cases read with
        | none => exact keeps_pure _
        | some iblock => exact ih _ _ _ _ _ _

lemma keeps_inodeRead (offset length : ℕ) (buffer : Bytes) :
    Keeps (ext2fsInodeRead env sb inode offset length buffer) := by
  intro h a h' heq
  rcases allocate_bind.1 heq with ⟨-, heq⟩ | ⟨old, -, heq⟩
  · exact (same_tick h).trans (keeps_pure _ _ _ _ heq)
  · refine Keeps.release ?_ (fun _ => keeps_pure _) heq
    exact (keeps_divide _ _).bind fun _ => (keeps_divide _ _).bind fun _ =>
      keeps_inodeReadLoop _ _ _ _ _ _ _ _

/-! ### Inodes and nodes -/

/-- An inode that there is memory for stays, whether it is found or not. -/
lemma inodeFind_spec {ino : ℕ} {found : Option (ℕ × Bytes)}
    (heq : ext2fsInodeFind env sb esb ino h = some (found, h')) :
    (env.bmalloc h.time esb.inodeSize = none ∧ Same h h') ∨
      (env.bmalloc h.time esb.inodeSize ≠ none ∧ Same h.alloc h') := by
  rcases allocate_bind.1 heq with ⟨hnone, heq⟩ | ⟨old, hsome, heq⟩
  · exact Or.inl ⟨hnone, (same_tick h).trans (keeps_pure _ _ _ _ heq)⟩
  · refine Or.inr ⟨hsome ▸ Option.some_ne_none old, ?_⟩
    refine ((keeps_divide _ _).bind fun qr => (keeps_readOffset _ _ _).bind fun desc => ?_)
      _ _ _ heq
    by_cases hdesc : desc.1 ≠ 0
    · rw [if_pos hdesc]
      exact keeps_pure _
    · rw [if_neg hdesc]
      refine (keeps_readOffset _ _ _).bind fun read => ?_
      split_ifs
      · exact keeps_pure _
      · exact keeps_pure _

/-- There is no memory for a node, or none for its inode, from the time on. -/
def NoRoom (env : Env) (inodeSize t : ℕ) : Prop :=
  env.bmalloc t sizeofFsNode = none ∨ env.bmalloc (t + 1) inodeSize = none

/-- Without a node, it is the inode that is lost, if there was memory for one. -/
lemma allocDent_none {ino : ℕ} {name : List UInt8}
    (heq : ext2fsAllocDent env sb esb ino name h = some (none, h')) :
    (NoRoom env esb.inodeSize h.time ∧ Same h h') ∨
      (¬ NoRoom env esb.inodeSize h.time ∧ Loses h h') := by
  unfold ext2fsAllocDent ext2fsAllocNode at heq
  rcases allocate_bind.1 heq with ⟨hnone, heq⟩ | ⟨old, hsome, heq⟩
  · exact Or.inl ⟨Or.inl hnone, (same_tick h).trans (keeps_pure _ _ _ _ heq)⟩
  · have hnode : env.bmalloc h.time sizeofFsNode ≠ none := hsome ▸ Option.some_ne_none old
    obtain ⟨found, h₁, hfind, heq⟩ := bind_eq_some.1 heq
    cases found with
    | some inode => exact absurd (pure_eq_some.1 heq).1 (Option.some_ne_none _)
    | none =>
      obtain ⟨⟨⟩, h₂, hfree, heq⟩ := bind_eq_some.1 heq
      cases hfree
      rw [← (pure_eq_some.1 heq).2]
      rcases inodeFind_spec hfind with ⟨hnone, hsame⟩ | ⟨hinode, hsame⟩
      · exact Or.inl ⟨Or.inr hnone, hsame.free_alloc⟩
      · exact Or.inr ⟨not_or.2 ⟨hnode, hinode⟩, (loses_alloc hsame).free_alloc⟩

/-! ### The lookup -/

/-- With the memory for the directory, the lookup of a name comes to a record that it takes, and
then it is the time. -/
def WantsIn (env : Env) (sb : Superblock) (inode : Inode) (name : List UInt8) (dbeg : Bytes)
    (h : Heap) (t : ℕ) : Prop :=
  ∃ read h₁ dpos, ext2fsInodeRead env sb inode 0 inode.sizeLower dbeg h = some (read, h₁) ∧
    read.1 = inode.sizeLower ∧ inode.sizeLower ≠ 0 ∧
      Ends (finddirTurn read.2 name) 0 (some dpos) ∧ h₁.time = t

/-- The same from the start. -/
def Wants (env : Env) (sb : Superblock) (inode : Inode) (name : List UInt8) (h : Heap) (t : ℕ) :
    Prop :=
  ∃ dbeg, env.bmalloc h.time inode.sizeLower = some dbeg ∧
    WantsIn env sb inode name dbeg h.alloc t

variable {name : List UInt8} {k : ℕ}

/-- What the run reads is what the condition is about. -/
lemma wantsIn_iff {dbeg : Bytes} {read : ℕ × Bytes} {h₁ : Heap} {t : ℕ}
    (hread : ext2fsInodeRead env sb inode 0 inode.sizeLower dbeg h = some (read, h₁)) :
    WantsIn env sb inode name dbeg h t ↔ read.1 = inode.sizeLower ∧ inode.sizeLower ≠ 0 ∧
      (∃ dpos, Ends (finddirTurn read.2 name) 0 (some dpos)) ∧ h₁.time = t := by
  constructor
  · rintro ⟨read', h₁', dpos, hread', hsize, hne, hends, ht⟩
    rw [hread] at hread'
    cases hread'
    exact ⟨hsize, hne, ⟨dpos, hends⟩, ht⟩
  · rintro ⟨hsize, hne, ⟨dpos, hends⟩, ht⟩
    exact ⟨read, h₁, dpos, hread, hsize, hne, hends, ht⟩

lemma findIn_none {dbeg : Bytes}
    (heq : findIn env sb esb inode name k dbeg h = some (none, h')) :
    ((∀ t, WantsIn env sb inode name dbeg h t → NoRoom env esb.inodeSize t) ∧ Same h h') ∨
      (∃ t, WantsIn env sb inode name dbeg h t ∧ ¬ NoRoom env esb.inodeSize t) ∧ Loses h h' := by
  obtain ⟨read, h₁, hread, heq⟩ := bind_eq_some.1 heq
  have hsame := keeps_inodeRead _ _ _ _ _ _ hread
  simp only [wantsIn_iff hread]
  by_cases hsize : read.1 ≠ inode.sizeLower
  · rw [if_pos hsize] at heq
    rw [← (pure_eq_some.1 heq).2]
    exact Or.inl ⟨fun t ht => absurd ht.1 hsize, hsame⟩
  rw [if_neg hsize] at heq
  by_cases hzero : inode.sizeLower = 0
  · rw [if_pos hzero] at heq
    rw [← (pure_eq_some.1 heq).2]
    exact Or.inl ⟨fun t ht => absurd hzero ht.2.1, hsame⟩
  rw [if_neg hzero] at heq
  obtain ⟨record, h₂, hrecord, heq⟩ := bind_eq_some.1 heq
  obtain ⟨hloop, rfl⟩ := ofOption_eq_some.1 hrecord
  cases record with
  | none =>
    rw [← (pure_eq_some.1 heq).2]
    refine Or.inl ⟨fun t ht => ?_, hsame⟩
    obtain ⟨dpos, hends⟩ := ht.2.2.1
    exact absurd (ends_unique ⟨k, hloop⟩ hends) (Option.some_ne_none _).symm
  | some dpos =>
    rcases allocDent_none heq with ⟨hroom, hkept⟩ | ⟨hroom, hlost⟩
    · refine Or.inl ⟨fun t ht => ?_, hsame.trans hkept⟩
      rwa [← ht.2.2.2]
    · exact Or.inr ⟨⟨h₁.time, ⟨not_not.1 hsize, hzero, ⟨dpos, k, hloop⟩, rfl⟩, hroom⟩,
        hsame.loses hlost⟩

/-- A lookup that finds nothing loses nothing, or else the inode for a record. -/
lemma finddir_none (heq : ext2fsFinddir env sb esb inode name k h = some (none, h')) :
    ((∀ t, Wants env sb inode name h t → NoRoom env esb.inodeSize t) ∧ Same h h') ∨
      (∃ t, Wants env sb inode name h t ∧ ¬ NoRoom env esb.inodeSize t) ∧ Loses h h' := by
  rcases allocate_bind.1 heq with ⟨hnone, heq⟩ | ⟨old, hsome, heq⟩
  · refine Or.inl ⟨?_, (same_tick h).trans (keeps_pure _ _ _ _ heq)⟩
    rintro t ⟨dbeg, hdbeg, -⟩
    exact absurd (hdbeg.symm.trans hnone) (Option.some_ne_none dbeg)
  · obtain ⟨dent, h₂, hfind, heq⟩ := bind_eq_some.1 heq
    obtain ⟨⟨⟩, h₃, hfree, heq⟩ := bind_eq_some.1 heq
    cases hfree
    obtain ⟨rfl, rfl⟩ := pure_eq_some.1 heq
    have hwants : ∀ t, Wants env sb inode name h t ↔ WantsIn env sb inode name old h.alloc t := by
      intro t
      constructor
      · rintro ⟨dbeg, hdbeg, ht⟩
        rwa [Option.some_inj.1 (hsome.symm.trans hdbeg)]
      · intro ht
        exact ⟨old, hsome, ht⟩
    simp only [hwants]
    rcases findIn_none hfind with ⟨hroom, hsame⟩ | ⟨hroom, hlost⟩
    · exact Or.inl ⟨hroom, hsame.free_alloc⟩
    · exact Or.inr ⟨hroom, hlost.free_alloc⟩

/-! ### The mount -/

/-- The superblock that is read into the memory for it has the right magic. -/
def MountsIn (env : Env) (bdLogs : ℕ) (old : Bytes) (h : Heap) (super : Bytes) : Prop :=
  readSuper env bdLogs old h = some (some super, h.tick) ∧ magic super = ext2SbMagic

/-- The mount gets as far as that, on a device with such blocks. -/
def Mounts (env : Env) (bdev : Option ℕ) (h : Heap) (super : Bytes) : Prop :=
  ∃ bdLogs old, bdev = some bdLogs ∧ env.bmalloc h.time ext2SbLength = some old ∧
    MountsIn env bdLogs old h.alloc super

lemma readSuper_time {bdLogs : ℕ} {old : Bytes} {read : Option Bytes}
    (heq : readSuper env bdLogs old h = some (read, h')) : h.tick = h' := by
  unfold readSuper bdevRead at heq
  exact (sense_eq_some.1 heq).2

lemma mountIn_none {bdLogs : ℕ} {old : Bytes}
    (heq : mountIn env bdLogs name old h = some (none, h')) :
    ((∀ super, MountsIn env bdLogs old h super → NoRoom env (inodeSize super) (h.time + 1)) ∧
        Same h h') ∨
      (∃ super, MountsIn env bdLogs old h super ∧ ¬ NoRoom env (inodeSize super) (h.time + 1)) ∧
        Loses h h' := by
  obtain ⟨read, h₁, hread, heq⟩ := bind_eq_some.1 heq
  obtain rfl := readSuper_time hread
  have hmounts : ∀ super, MountsIn env bdLogs old h super →
      read = some super ∧ magic super = ext2SbMagic := by
    rintro super ⟨hread', hmagic⟩
    rw [hread] at hread'
    cases hread'
    exact ⟨rfl, hmagic⟩
  cases read with
  | none =>
    rw [← (pure_eq_some.1 heq).2]
    refine Or.inl ⟨fun super hmount => ?_, same_tick h⟩
    exact absurd (hmounts _ hmount).1.symm (Option.some_ne_none super)
  | some super =>
    dsimp only at heq
    by_cases hmagic : magic super ≠ ext2SbMagic
    · rw [if_pos hmagic] at heq
      rw [← (pure_eq_some.1 heq).2]
      refine Or.inl ⟨fun super' hmount => ?_, same_tick h⟩
      obtain ⟨hsuper, hright⟩ := hmounts _ hmount
      cases hsuper
      exact absurd hright hmagic
    · rw [if_neg hmagic] at heq
      rcases allocDent_none heq with ⟨hroom, hkept⟩ | ⟨hroom, hlost⟩
      · refine Or.inl ⟨fun super' hmount => ?_, (same_tick h).trans hkept⟩
        rwa [← Option.some_inj.1 (hmounts _ hmount).1]
      · exact Or.inr ⟨⟨super, ⟨hread, not_not.1 hmagic⟩, hroom⟩, (same_tick h).loses hlost⟩

/-- A mount that fails loses nothing, or else the root inode. -/
lemma fillSuper_none {bdev : Option ℕ} (heq : ext2fsFillSuper env bdev name h = some (none, h')) :
    ((∀ super, Mounts env bdev h super → NoRoom env (inodeSize super) (h.time + 2)) ∧
        Same h h') ∨
      (∃ super, Mounts env bdev h super ∧ ¬ NoRoom env (inodeSize super) (h.time + 2)) ∧
        Loses h h' := by
  cases bdev with
  | none =>
    refine Or.inl ⟨?_, keeps_pure _ _ _ _ heq⟩
    rintro super ⟨bdLogs, old, hbdev, -⟩
    exact absurd hbdev.symm (Option.some_ne_none bdLogs)
  | some bdLogs =>
    rcases allocate_bind.1 heq with ⟨hnone, heq⟩ | ⟨old, hsome, heq⟩
    · refine Or.inl ⟨?_, (same_tick h).trans (keeps_pure _ _ _ _ heq)⟩
      rintro super ⟨bdLogs', old, -, hold, -⟩
      exact absurd (hold.symm.trans hnone) (Option.some_ne_none old)
    · obtain ⟨node, h₁, hmount, heq⟩ := bind_eq_some.1 heq
      cases node with
      | some node => exact absurd (pure_eq_some.1 heq).1 (Option.some_ne_none _)
      | none =>
        obtain ⟨⟨⟩, h₂, hfree, heq⟩ := bind_eq_some.1 heq
        cases hfree
        rw [← (pure_eq_some.1 heq).2]
        have hmounts : ∀ super, Mounts env (some bdLogs) h super ↔
            MountsIn env bdLogs old h.alloc super := by
          intro super
          constructor
          · rintro ⟨bdLogs', old', hlogs, hold, hin⟩
            rwa [Option.some_inj.1 hlogs, Option.some_inj.1 (hsome.symm.trans hold)]
          · intro hin
            exact ⟨bdLogs, old, rfl, hsome, hin⟩
        simp only [hmounts]
        rcases mountIn_none hmount with ⟨hroom, hsame⟩ | ⟨hroom, hlost⟩
        · exact Or.inl ⟨hroom, hsame.free_alloc⟩
        · exact Or.inr ⟨hroom, hlost.free_alloc⟩

/-- **A failed lookup or mount frees all it allocated** exactly where it gets to no inode, or has
no memory for the node or for the inode. -/
theorem same_iff (env : Env) :
    (∀ sb esb inode name k h h', ext2fsFinddir env sb esb inode name k h = some (none, h') →
      (h'.live = h.live ↔ ∀ t, Wants env sb inode name h t → NoRoom env esb.inodeSize t)) ∧
    ∀ bdev name h h', ext2fsFillSuper env bdev name h = some (none, h') →
      (h'.live = h.live ↔ ∀ super, Mounts env bdev h super →
        NoRoom env (inodeSize super) (h.time + 2)) := by
  constructor
  · intro sb esb inode name k h h' heq
    rcases finddir_none heq with ⟨hroom, hsame⟩ | ⟨⟨t, hwants, hroom⟩, hlost⟩
    · exact iff_of_true hsame.live hroom
    · exact iff_of_false hlost.not_same fun hall => hroom (hall t hwants)
  · intro bdev name h h' heq
    rcases fillSuper_none heq with ⟨hroom, hsame⟩ | ⟨⟨super, hmounts, hroom⟩, hlost⟩
    · exact iff_of_true hsame.live hroom
    · exact iff_of_false hlost.not_same fun hall => hroom (hall super hmounts)

/-! ### A disk that fails behind the superblock -/

/-- A superblock with eight inodes in a group, and nothing else but its magic. -/
def superBytes : Bytes := fun i =>
  if i = 40 then 8 else if i = 56 then 0x53 else if i = 57 then 0xEF else 0

/-- There is memory for everything, and only the first read works. -/
def firstRead : Env :=
  ⟨fun _ _ => some fun _ => 0, fun t _ _ => if t = 1 then some superBytes else none, fun _ => 0⟩

theorem same_iff_firstRead : ∃ h', ext2fsFillSuper firstRead (some 9) [] emptyHeap =
      some (none, h') ∧
    (h'.live = ∅ ↔ ∀ super, Mounts firstRead (some 9) emptyHeap super →
      NoRoom firstRead (inodeSize super) 2) :=
  ⟨_, rfl, (same_iff firstRead).2 (some 9) [] emptyHeap _ rfl⟩

/-- The root inode is left. -/
theorem not_same_firstRead : ∃ h', ext2fsFillSuper firstRead (some 9) [] emptyHeap =
    some (none, h') ∧ h'.live = {3} ∧ h'.live ≠ emptyHeap.live :=
  ⟨_, rfl, by decide, by decide⟩

end Elfboot.Ext2Leak
