import Elfboot.IsoDir

/-!
Which records `isofs_finddir` examines, and which bytes it reads of the memory a directory is
in.
-/

namespace Elfboot.IsoWalk

open Elfboot.Word Elfboot.Buffer Elfboot.Str Elfboot.Loop Elfboot.Super Elfboot.IsoDir

/-! ### What is read -/

/-- How many bytes of the memory `strncmp` reads. -/
def strncmpReads (b : Bytes) : ℕ → List UInt8 → ℕ → ℕ
  | _, _, 0 => 0
  | s, lit, count + 1 =>
    if b s ≠ lit.headD 0 ∨ b s = 0 then 1 else strncmpReads b (s + 1) lit.tail count + 1

/-- A turn of the loop of `isofs_finddir` reads the byte at `i`: the length of the record it is
at; the length of its name, its flags, the byte where a dot may be, and the bytes of the name
up to where the comparison ends; and what goes into a node, where one is made. -/
def Reads (mem : Bytes) (name : List UInt8) (alloc : Bool) (s : Walk) (i : ℕ) : Prop :=
  s.size ≠ 0 ∧ (i = s.dpos ∨ mem s.dpos ≠ 0 ∧
    (i = s.dpos + 32 ∨ i = s.dpos + 25 ∨
      (mem (s.dpos + 25) &&& 2 = 0 ∧ strchr name 46 = false ∧
        i = u32 (s.dpos + 33 + sub32 (sub32 (mem (s.dpos + 32)).toNat 2) 1)) ∨
      (s.dpos + 33 ≤ i ∧
        i < s.dpos + 33 + strncmpReads mem (s.dpos + 33) name (nameLen mem name s.dpos)) ∨
      (takes mem name s.dpos = true ∧ alloc = true ∧
        (s.dpos + 2 ≤ i ∧ i < s.dpos + 6 ∨ s.dpos + 10 ≤ i ∧ i < s.dpos + 14))))

/-- The places of the records that are examined in these turns. -/
def examined (mem : Bytes) (walk : List Walk) : List ℕ :=
  (walk.filter fun s => s.size ≠ 0 ∧ mem s.dpos ≠ 0).map Walk.dpos

/-- The turns of `isofsFinddir`. -/
def finddirVisits (sb : Superblock) (name : List UInt8) (inode length : ℕ) (room : Option ℕ)
    (dbeg : Bytes) (alloc : Bool) (k : ℕ) : List Walk :=
  let size := u32 length
  match room with
  | none => []
  | some room =>
    if room < size then []
    else
      let numblk := size >>> sb.blockLogs
      let read := superblockReadBlocks sb inode numblk dbeg
      if read.1 ≠ 0 then [] else trace (finddirTurn sb read.2 name alloc) k ⟨size, 0, 0⟩

/-! ### The records of a directory -/

/-- Where the records lie that lie behind each other. -/
def places : ℕ → List Record → List ℕ
  | _, [] => []
  | pos, r :: rs => pos :: places (pos + r.length) rs

/-- Where the records of sectors of `n` bytes lie. -/
def sectorPlaces (n : ℕ) : ℕ → List (List Record) → List ℕ
  | _, [] => []
  | start, rs :: rest => places start rs ++ sectorPlaces n (start + n) rest

variable {sb : Superblock} {d : Directory sb} {mem dbeg : Bytes} {name : List UInt8}
  {r : Record} {rs : List Record} {n pos size dent k i : ℕ} {alloc : Bool}

/-- Each record is examined once, nothing is read behind the directory, and `NULL` is returned;
with memory for a node or without. -/
def WalksOver (d : Directory sb) (room : Option ℕ) (dbeg : Bytes) (name : List UInt8) : Prop :=
  ∀ alloc, ∃ k, isofsFinddir sb name d.extent d.length room dbeg alloc k = some none ∧
    (∀ p ∈ sectorPlaces sb.blockSize 0 d.sectors, (examined (loaded d dbeg)
      (finddirVisits sb name d.extent d.length room dbeg alloc k)).count p = 1) ∧
    ∀ s ∈ finddirVisits sb name d.extent d.length room dbeg alloc k, ∀ i,
      Reads (loaded d dbeg) name alloc s i → i < d.length

lemma le_of_mem_places (h : i ∈ places pos rs) : pos ≤ i := by
  induction rs generalizing pos with
  | nil => cases h
  | cons r rs ih =>
    rcases List.mem_cons.1 h with rfl | h
    · exact le_rfl
    · exact (Nat.le_add_right _ _).trans (ih h)

lemma places_nodup (pos : ℕ) (rs : List Record) : (places pos rs).Nodup := by
  induction rs generalizing pos with
  | nil => exact List.nodup_nil
  | cons r rs ih =>
    refine List.nodup_cons.2 ⟨fun h => ?_, ih _⟩
    have hle := le_of_mem_places h
    have hroom := r.room
    omega

lemma sectorPlaces_eq_nil (n pos : ℕ) (secs : List (List Record)) :
    sectorPlaces n pos secs = [] ↔ secs.flatten = [] := by
  induction secs generalizing pos with
  | nil => exact iff_of_true rfl rfl
  | cons rs rest ih =>
    have hrs : places pos rs = [] ↔ rs = [] := by cases rs <;> simp [places]
    rw [sectorPlaces, List.flatten_cons, List.append_eq_nil_iff, List.append_eq_nil_iff, ih, hrs]

/-! ### What is read inside the directory -/

lemma strncmpReads_le (h0 : mem (pos + n) = 0) (name : List UInt8) (count : ℕ) :
    strncmpReads mem pos name count ≤ n + 1 := by
  induction count generalizing pos n name with
  | zero => exact Nat.zero_le _
  | succ count ih =>
    unfold strncmpReads
    split_ifs with hstop
    · omega
    · cases n with
      | zero => exact absurd (Or.inr h0) hstop
      | succ n =>
        have hnext : mem (pos + 1 + n) = 0 := by rwa [Nat.add_assoc, Nat.add_comm 1]
        have hle := ih hnext name.tail
        omega

/-- At a record with padding behind it nothing is read behind the padding's first byte. -/
lemma reads_record (hlay : Lays mem pos (r :: rs)) {pad : ℕ} (hpad : pos + r.length ≤ pad)
    (hlt : pad < 2 ^ 32) (h0 : mem pad = 0) (h : Reads mem name alloc ⟨size, dent, pos⟩ i) :
    i ≤ pad := by
  obtain ⟨-, -, -, -, hname, -, -⟩ := hlay
  have hroom := r.room
  have hzero : mem (pos + 33 + (pad - (pos + 33))) = 0 := by
    rwa [Nat.add_sub_cancel' (by omega : pos + 33 ≤ pad)]
  have hcmp := strncmpReads_le hzero name (nameLen mem name pos)
  dsimp only [Reads] at h
  obtain ⟨-, hi | ⟨-, hi | hi | ⟨-, -, hi⟩ | ⟨-, hi⟩ | ⟨-, -, hi⟩⟩⟩ := h
  · omega
  · omega
  · omega
  · rw [hname, name_back (by omega)] at hi
    omega
  · omega
  · omega

/-! ### Walking -/

/-- A turn passes a record that it does not take. -/
lemma turn_passes (sb : Superblock) (dent : ℕ) (alloc : Bool) (hlay : Lays mem pos (r :: rs))
    (hpos : pos + r.length < 2 ^ 32) (hsize : size ≠ 0) (htakes : ¬ takes mem name pos = true) :
    finddirTurn sb mem name alloc ⟨size, dent, pos⟩ =
      some (.next ⟨size, dent, pos + r.length⟩) := by
  unfold finddirTurn
  dsimp only
  rw [if_neg hsize, if_neg hlay.ne, if_neg htakes, hlay.1, u32_of_lt hpos]

/-- **The walk passes records** of which it takes none. -/
lemma walk_records (sb : Superblock) (dent : ℕ) (alloc : Bool) (hlay : Lays mem pos rs)
    (hpos : pos + span rs < 2 ^ 32) (hsize : size ≠ 0) (hnone : taken mem name pos rs = none) :
    Reaches (finddirTurn sb mem name alloc) ⟨size, dent, pos⟩ ⟨size, dent, pos + span rs⟩ ∧
    ∀ k, loop (finddirTurn sb mem name alloc) (rs.length + k) ⟨size, dent, pos⟩ =
        loop (finddirTurn sb mem name alloc) k ⟨size, dent, pos + span rs⟩ ∧
      trace (finddirTurn sb mem name alloc) (rs.length + k) ⟨size, dent, pos⟩ =
        (places pos rs).map (Walk.mk size dent) ++
          trace (finddirTurn sb mem name alloc) k ⟨size, dent, pos + span rs⟩ := by
  induction rs generalizing pos with
  | nil =>
    refine ⟨reaches_self _ _, fun k => ?_⟩
    rw [List.length_nil, Nat.zero_add]
    exact ⟨rfl, rfl⟩
  | cons r rs ih =>
    rw [span_cons, ← Nat.add_assoc] at hpos ⊢
    unfold taken at hnone
    by_cases htakes : takes mem name pos = true
    · rw [if_pos htakes] at hnone
      cases hnone
    · rw [if_neg htakes] at hnone
      have hturn := turn_passes sb dent alloc hlay (by omega) hsize htakes
      obtain ⟨hreach, hrest⟩ := ih hlay.2.2.2.2.2.2 hpos hnone
      refine ⟨(reaches_next hturn).2 (Or.inr hreach), fun k => ?_⟩
      rw [List.length_cons, Nat.succ_add, loop_next hturn, trace_next hturn, (hrest k).1,
        (hrest k).2]
      exact ⟨rfl, rfl⟩

/-- All records that are passed are examined. -/
lemma examined_records (dent : ℕ) (hlay : Lays mem pos rs)
    (hsize : size ≠ 0) (walk : List Walk) :
    examined mem ((places pos rs).map (Walk.mk size dent) ++ walk) =
      places pos rs ++ examined mem walk := by
  induction rs generalizing pos with
  | nil => rfl
  | cons r rs ih =>
    have hne := hlay.ne
    have htail := ih hlay.2.2.2.2.2.2
    unfold examined at htail ⊢
    rw [places, List.map_cons, List.cons_append, List.filter_cons_of_pos (by simp [hsize, hne]),
      List.map_cons, htail]
    rfl

lemma visits_loop (h : Readable sb) (d : Directory sb) {room : ℕ} (hroom : d.length ≤ room)
    (name : List UInt8) (dbeg : Bytes) (alloc : Bool) (k : ℕ) :
    isofsFinddir sb name d.extent d.length (some room) dbeg alloc k =
        loop (finddirTurn sb (loaded d dbeg) name alloc) k ⟨d.length, 0, 0⟩ ∧
      finddirVisits sb name d.extent d.length (some room) dbeg alloc k =
        trace (finddirTurn sb (loaded d dbeg) name alloc) k ⟨d.length, 0, 0⟩ := by
  have hlen : u32 d.length = d.length := u32_of_lt d.length_lt
  unfold isofsFinddir finddirVisits
  dsimp only
  rw [hlen, if_neg (not_lt.mpr hroom), if_neg (not_lt.mpr hroom), readBlocks_eq h,
    if_neg (not_not.mpr rfl), if_neg (not_not.mpr rfl)]
  exact ⟨rfl, rfl⟩

lemma lays_of_mem_places (hlay : Lays mem pos rs) (h : i ∈ places pos rs) :
    ∃ r rest, Lays mem i (r :: rest) ∧ i + r.length ≤ pos + span rs := by
  induction rs generalizing pos with
  | nil => cases h
  | cons r rs ih =>
    rw [span_cons]
    rcases List.mem_cons.1 h with rfl | h
    · exact ⟨r, rs, hlay, by omega⟩
    · obtain ⟨r', rest, hlay', hle⟩ := ih hlay.2.2.2.2.2.2 h
      exact ⟨r', rest, hlay', by omega⟩

/-- The walk over a directory of one padded sector, where no record is taken. -/
lemma walk_padded (hone : d.sectors.length = 1) (hpad : span (walked d) < sb.blockSize)
    (hnone : taken (loaded d dbeg) name 0 (walked d) = none) (alloc : Bool) :
    ∃ k next, loop (finddirTurn sb (loaded d dbeg) name alloc) k ⟨d.length, 0, 0⟩ = some none ∧
      trace (finddirTurn sb (loaded d dbeg) name alloc) k ⟨d.length, 0, 0⟩ =
        (places 0 (walked d)).map (Walk.mk d.length 0) ++
          [⟨d.length, 0, span (walked d)⟩, ⟨0, next, next⟩] := by
  have hB := sb.blockSize_pos
  have hB' := sb.blockSize_lt
  have hlen : d.length = sb.blockSize := by
    rw [Directory.length, hone, Nat.one_mul]
  obtain ⟨hlay, hend⟩ := walked_lays d dbeg
  have h0 : loaded d dbeg (span (walked d)) = 0 := (hend.resolve_left (by omega)).2
  have hpadding : finddirTurn sb (loaded d dbeg) name alloc ⟨d.length, 0, span (walked d)⟩ = _ :=
    turn_padding sb name alloc (by omega) h0
  have hsub : sub32 d.length sb.blockSize = 0 := by
    rw [hlen, sub32_of_le le_rfl (by omega), Nat.sub_self]
  rw [hsub] at hpadding
  obtain ⟨-, hwalk⟩ := walk_records sb 0 alloc hlay (by omega) (by omega : d.length ≠ 0) hnone
  rw [Nat.zero_add] at hwalk
  refine ⟨(walked d).length + 2, u32 (0 + sizeofRecord * sb.blockSize), ?_, ?_⟩
  · rw [(hwalk 2).1, loop_next hpadding, loop_leave (turn_done ..)]
  · rw [(hwalk 2).2, trace_next hpadding, trace_leave (turn_done ..)]

lemma walked_one (hone : d.sectors.length = 1) :
    sectorPlaces sb.blockSize 0 d.sectors = places 0 (walked d) := by
  obtain ⟨rs, hrs⟩ := List.length_eq_one_iff.1 hone
  have hlead : lead sb.blockSize [rs] = rs := by
    unfold lead lead
    rw [List.append_nil, ite_self]
  unfold walked
  rw [hrs, hlead]
  exact List.append_nil _

lemma walksOver_padded (h : Readable sb) {room : ℕ} (hroom : d.length ≤ room)
    (hone : d.sectors.length = 1) (hpad : span (walked d) < sb.blockSize)
    (hnone : taken (loaded d dbeg) name 0 (walked d) = none) :
    WalksOver d (some room) dbeg name := by
  intro alloc
  have hB := sb.blockSize_pos
  have hB' := sb.blockSize_lt
  have hlen : d.length = sb.blockSize := by
    rw [Directory.length, hone, Nat.one_mul]
  obtain ⟨hlay, hend⟩ := walked_lays d dbeg
  have h0 : loaded d dbeg (span (walked d)) = 0 := (hend.resolve_left (by omega)).2
  obtain ⟨k, next, hloop, htrace⟩ := walk_padded hone hpad hnone alloc
  obtain ⟨hfind, hvisits⟩ := visits_loop h d hroom name dbeg alloc k
  refine ⟨k, hfind.trans hloop, fun p hp => ?_, fun s hs i hread => ?_⟩
  · rw [walked_one hone] at hp
    rw [hvisits, htrace, examined_records 0 hlay (by omega)]
    have hrest : examined (loaded d dbeg)
        [⟨d.length, 0, span (walked d)⟩, ⟨0, next, next⟩] = [] := by
      simp [examined, h0]
    rw [hrest, List.append_nil]
    exact List.count_eq_one_of_mem (places_nodup _ _) hp
  · rw [hvisits, htrace, List.mem_append] at hs
    rcases hs with hs | hs
    · obtain ⟨p, hp, rfl⟩ := List.mem_map.1 hs
      obtain ⟨r, rest, hrec, hle⟩ := lays_of_mem_places hlay hp
      have hi := reads_record hrec (by omega : p + r.length ≤ span (walked d)) (by omega) h0 hread
      omega
    · rcases List.mem_cons.1 hs with rfl | hs
      · rcases hread.2 with rfl | hbad
        · dsimp only
          omega
        · exact absurd h0 hbad.1
      · rw [List.mem_singleton.1 hs] at hread
        exact absurd rfl hread.1

/-- From another directory with sectors the walk reads behind it. -/
lemma not_walksOver (h : Readable sb) {room : ℕ} (hroom : d.length ≤ room) (hsmall : room ≤ 2 ^ 15)
    (hpos : d.sectors ≠ [])
    (hpad : ¬ (d.sectors.length = 1 ∧ span (walked d) < sb.blockSize))
    (hnone : taken (loaded d dbeg) name 0 (walked d) = none) :
    ¬ WalksOver d (some room) dbeg name := by
  intro hover
  obtain ⟨k, heq, -, hinside⟩ := hover true
  obtain ⟨hfind, hvisits⟩ := visits_loop h d hroom name dbeg true k
  rw [hfind] at heq
  obtain ⟨size, dent, pos, hsize, hle, -, hbehind⟩ :=
    reaches_behind d name hpos (hroom.trans hsmall) hpad
  obtain ⟨hlay, hend⟩ := walked_lays d dbeg
  have hspan : span (walked d) ≤ d.length := hend.elim (fun h => h.le) fun h => h.1.le
  have hlt : d.length < 2 ^ 32 := d.length_lt
  have hne : d.length ≠ 0 :=
    Nat.mul_ne_zero (by simpa using hpos) sb.blockSize_pos.ne'
  obtain ⟨hreach, -⟩ := walk_records sb 0 true hlay (by omega) hne hnone
  rw [Nat.zero_add] at hreach
  have hmem := mem_trace heq (hreach.trans (hbehind dbeg true))
  rw [← hvisits] at hmem
  exact absurd (hinside _ hmem pos ⟨hsize, Or.inl rfl⟩) (not_lt.2 hle)

/-- A record that is taken is found. -/
lemma taken_none_of_walksOver (h : Readable sb) {room : ℕ} (hroom : d.length ≤ room)
    (hpos : d.sectors ≠ []) (hover : WalksOver d (some room) dbeg name) :
    taken (loaded d dbeg) name 0 (walked d) = none := by
  obtain ⟨k, heq, -⟩ := hover true
  rw [(visits_loop h d hroom name dbeg true k).1] at heq
  have hwalk := (ends_walked d name hpos dbeg none).1 ⟨k, heq⟩
  cases ht : taken (loaded d dbeg) name 0 (walked d) with
  | none => rfl
  | some q =>
    rw [ht] at hwalk
    cases hwalk

/-- With memory for the directory: it is empty, or of one padded sector in which no record is
taken for the name. With none: it has no record. -/
def OncePossible (d : Directory sb) (dbeg : Bytes) (name : List UInt8) : Option ℕ → Prop
  | none => d.records = []
  | some room => d.length ≤ room ∧ (d.sectors = [] ∨ d.sectors.length = 1 ∧
      span (walked d) < sb.blockSize ∧ taken (loaded d dbeg) name 0 (walked d) = none)

/-- **The walk goes over the directory once** exactly if there is memory for it and it is
empty, or of one padded sector in which no record is taken for the name; or if there is no
memory and no record. -/
theorem walksOver_iff (sb : Superblock) (hread : Readable sb) (d : Directory sb)
    (room : Option ℕ) (hroom : ∀ n ∈ room, n ≤ 2 ^ 15) (dbeg : Bytes) (name : List UInt8) :
    WalksOver d room dbeg name ↔ OncePossible d dbeg name room := by
  cases room with
  | none =>
    rw [OncePossible, Directory.records, ← sectorPlaces_eq_nil sb.blockSize 0]
    constructor
    · intro h
      obtain ⟨k, -, hcount, -⟩ := h true
      refine List.eq_nil_iff_forall_not_mem.2 fun p hp => ?_
      exact Nat.zero_ne_one (hcount p hp)
    · intro h alloc
      refine ⟨0, rfl, fun p hp => ?_, fun s hs => ?_⟩
      · rw [h] at hp
        cases hp
      · cases hs
  | some room =>
    dsimp only [OncePossible]
    by_cases hfit : d.length ≤ room
    · rw [and_iff_right hfit]
      by_cases hnil : d.sectors = []
      · have hstart : Walk.mk d.length 0 0 = ⟨0, 0, 0⟩ := by
          rw [Directory.length, hnil, List.length_nil, Nat.zero_mul]
        refine iff_of_true (fun alloc => ?_) (Or.inl hnil)
        obtain ⟨hfind, hvisits⟩ := visits_loop hread d hfit name dbeg alloc 1
        rw [hstart] at hfind hvisits
        refine ⟨1, hfind.trans (loop_leave (turn_done ..)), fun p hp => ?_, fun s hs i hi => ?_⟩
        · rw [hnil] at hp
          cases hp
        · rw [hvisits, trace_leave (turn_done ..), List.mem_singleton] at hs
          rw [hs] at hi
          exact absurd rfl hi.1
      · rw [or_iff_right hnil]
        constructor
        · intro h
          have hnone := taken_none_of_walksOver hread hfit hnil h
          by_contra hnot
          exact not_walksOver hread hfit (hroom room rfl) hnil
            (fun hone => hnot ⟨hone.1, hone.2, hnone⟩) hnone h
        · rintro ⟨hone, hpad, hnone⟩
          exact walksOver_padded hread hfit hone hpad hnone
    · refine iff_of_false (fun h => ?_) fun h => hfit h.1
      obtain ⟨k, heq, -⟩ := h true
      have hlen : u32 d.length = d.length := u32_of_lt d.length_lt
      unfold isofsFinddir at heq
      dsimp only at heq
      rw [hlen, if_pos (not_le.1 hfit)] at heq
      cases heq

theorem walksOver_iff_sub :
    WalksOver isoDirectory (some 2048) (fun _ => 0) [66] ↔
      OncePossible isoDirectory (fun _ => 0) [66] (some 2048) :=
  walksOver_iff isoSuper iso_readable isoDirectory (some 2048) (by simp) (fun _ => 0) [66]

def twoByte (i : ℕ) : UInt8 := if i = 4129 then 67 else isoBytes.getD (i % 2048) 0

/-- A disk with a directory of two sectors from its second block on, for the directories `A`
and `C`. -/
def twoSuper : Superblock := { isoSuper with bdev := { isoSuper.bdev with byte := twoByte } }

lemma two_byte : twoSuper.bdev.byte = twoByte := by
  unfold twoSuper
  dsimp only

lemma two_readable : Readable twoSuper := ⟨fun _ => Bool.false_ne_true, by decide⟩

def twoRecord : Record := ⟨34, 5, 7, 2, [67], le_rfl⟩

lemma twoByte_zero {start i : ℕ} (hstart : start % 2048 = 0) (h : 34 ≤ i) (hlt : i < 2048) :
    twoByte (start + i) = 0 := by
  have hlen : isoBytes.length = 34 := rfl
  unfold twoByte
  rw [if_neg (by omega)]
  exact List.getD_eq_default _ _ (by omega)

lemma two_lays : LaysSectors (fun i => twoSuper.bdev.byte (1 * twoSuper.blockSize + i))
    twoSuper.blockSize 0 [[isoRecord], [twoRecord]] := by
  have hpad : ∀ start, start % 2048 = 0 → ∀ i, 34 ≤ i → i < twoSuper.blockSize →
      twoSuper.bdev.byte (1 * twoSuper.blockSize + (start + i)) = 0 := by
    intro start hstart i hle hlt
    have hB : twoSuper.blockSize = 2048 := rfl
    rw [hB] at hlt
    rw [two_byte, hB, ← Nat.add_assoc]
    exact twoByte_zero (by omega) hle hlt
  refine ⟨⟨by decide, by decide, by decide, by decide, by decide, fun i hi => ?_, trivial⟩,
    by decide, hpad 0 rfl, ⟨by decide, by decide, by decide, by decide, by decide,
      fun i hi => ?_, trivial⟩, by decide, hpad _ rfl, trivial⟩
  · obtain rfl : i = 0 := by simpa [isoRecord] using hi
    exact (by decide : twoSuper.bdev.byte 2081 = 65)
  · obtain rfl : i = 0 := by simpa [twoRecord] using hi
    exact (by decide : twoSuper.bdev.byte 4129 = 67)

lemma two_extent_lt : 1 < 2 ^ 32 := by decide

lemma two_length_lt : 2 * twoSuper.blockSize < 2 ^ 32 := by decide

lemma two_sector : 2 ^ 11 ≤ twoSuper.blockSize := le_rfl

def twoDirectory : Directory twoSuper where
  extent := 1
  sectors := [[isoRecord], [twoRecord]]
  extent_lt := two_extent_lt
  length_lt := two_length_lt
  sector := two_sector
  lays := two_lays

/-- In a directory of two sectors no record is for the name `B`, and the walk does not come to
the second sector. -/
theorem not_walksOver_two : right twoDirectory [66] = none ∧
    ¬ WalksOver twoDirectory (some 4096) (fun _ => 0) [66] := by
  have htakes : ¬ takes (loaded twoDirectory fun _ => 0) [66] 0 = true := by decide
  exact ⟨by decide, not_walksOver two_readable le_rfl (by decide) (List.cons_ne_nil _ _)
    (fun h => absurd h.1 (by decide)) (if_neg htakes)⟩

end Elfboot.IsoWalk
