import Elfboot.FileRead

/-!
The search for the header of a multiboot kernel: `mboot1_compare_signature`.

The beginning of the file is read into a buffer, and the buffer is searched for the magic word.
Where it stands, the header is read from the file once more, and its checksum is tested.
-/

namespace Elfboot.Mboot1Search

open Elfboot.Errno Elfboot.Word Elfboot.Buffer Elfboot.FileRead

abbrev mboot1HeaderMagic : ℕ := 0x1badb002
abbrev mboot1HeaderSize : ℕ := 48
abbrev mboot1SearchLimit : ℕ := 8192 - mboot1HeaderSize
abbrev mboot1SearchCount : ℕ := 8192 / 4

/-- The fields of `struct multiboot_header` that are looked at. -/
def headerFlags (header : Bytes) : ℕ := le32 header 4
def headerChecksum (header : Bytes) : ℕ := le32 header 8

def checksumOk (header : Bytes) : Bool :=
  headerChecksum header = sub32 0 (u32 (headerFlags header + mboot1HeaderMagic))

/-- The members of `struct mboot1_info` that are set here. -/
structure Info where
  flags : ℕ
  header : Bytes

/-- What is done where the magic word was found, with what `bmalloc` gives. -/
def readHeader (kernel : File) (m : Bmalloc) (header : Option Bytes) (offset : ℕ) :
    ℤ × Option Info :=
  match header with
  | none => (-enomem, none)
  | some header =>
    let (ret, header) := fileRead (fileSeek kernel (offset * 4)) m mboot1HeaderSize header
    if ret = 0 then (-efault, none)
    else if !checksumOk header then (-efault, none)
    else (0, some ⟨headerFlags header, header⟩)

/-- The loop, with the number of words that are still to be looked at. -/
def searchLoop (kernel : File) (m : Bmalloc) (header : Option Bytes) (buffer : Bytes) :
    ℕ → ℕ → ℤ × Option Info
  | 0, _ => (-efault, none)
  | n + 1, offset =>
    if le32 buffer (offset * 4) ≠ mboot1HeaderMagic then
      searchLoop kernel m header buffer n (offset + 1)
    else readHeader kernel m header offset

/-- `mboot1_compare_signature`, with what `bmalloc` gives for the buffer and for the header, and in
the two calls of `file_read`. -/
def mboot1CompareSignature (kernel : File) (m : ℕ → Bmalloc) (buffer header : Option Bytes) :
    ℤ × Option Info :=
  match buffer with
  | none => (-enomem, none)
  | some buffer =>
    let (ret, buffer) := fileRead kernel (m 0) mboot1SearchLimit buffer
    if ret = 0 then (-efault, none)
    else searchLoop kernel (m 1) header buffer mboot1SearchCount 0

/-! ### What the search is to give -/

variable (kernel : File) (m : ℕ → Bmalloc) (content : Bytes)

/-- The file has a header at a word. -/
def HeaderAt (o : ℕ) : Prop :=
  le32 content (o * 4) = mboot1HeaderMagic ∧ checksumOk (fun i => content (o * 4 + i)) = true

instance (o : ℕ) : Decidable (HeaderAt content o) := inferInstanceAs (Decidable (_ ∧ _))

/-- The bytes that are read in the first place. -/
def searched : ℕ := min mboot1SearchLimit kernel.length

/-- The result depends on the file alone, and is that there is a header, or that there is none. -/
structure Searches : Prop where
  same : ∀ b h b' h', (mboot1CompareSignature kernel m (some b) (some h)).1 =
    (mboot1CompareSignature kernel m (some b') (some h')).1
  sound : ∀ b h, (mboot1CompareSignature kernel m (some b) (some h)).1 = 0 →
    ∃ o, o * 4 < 8192 ∧ o * 4 + 12 ≤ kernel.length ∧ HeaderAt content o
  complete : ∀ o, o * 4 + mboot1HeaderSize ≤ searched kernel → HeaderAt content o →
    ∀ b h, (mboot1CompareSignature kernel m (some b) (some h)).1 = 0

/-- `file_read` delivers what it is asked for at first, and `got o` bytes from the word `o` on. -/
structure Readable (got : ℕ → ℕ) : Prop where
  first : ∀ b, fileRead kernel (m 0) mboot1SearchLimit b =
    ((searched kernel : ℤ), fun i => if i < searched kernel then content i else b i)
  header : ∀ o h, o * 4 < kernel.length →
    fileRead (fileSeek kernel (o * 4)) (m 1) mboot1HeaderSize h =
      ((got o : ℤ), fun i => if i < got o then content (o * 4 + i) else h i)
  got_le : ∀ o, o * 4 < kernel.length → o * 4 + got o ≤ kernel.length

/-- With some memory, what `file_read` leaves there of a word's header passes the checksum. -/
def CanPass (o : ℕ) : Prop := ∃ h n header,
  fileRead (fileSeek kernel (o * 4)) (m 1) mboot1HeaderSize h = (n, header) ∧ n ≠ 0 ∧
    checksumOk header = true

/-- The header of the file that is read at a word passes. -/
def Passes (got : ℕ → ℕ) (o : ℕ) : Prop :=
  12 ≤ got o ∧ checksumOk (fun i => content (o * 4 + i)) = true

/-- The first word that is the magic, among those that were read as a whole. -/
def firstMagic : Option ℕ := (List.range mboot1SearchCount).find? fun o =>
  o * 4 + 4 ≤ searched kernel ∧ le32 content (o * 4) = mboot1HeaderMagic

def magicByte (i : ℕ) : UInt8 := UInt8.ofNat (mboot1HeaderMagic / 2 ^ (8 * i))

/-- The word was not read as a whole, and what was read of it is the beginning of the magic. -/
def MayBeMagic (o : ℕ) : Prop :=
  o < mboot1SearchCount ∧ searched kernel < o * 4 + 4 ∧
    ∀ i < 4, o * 4 + i < searched kernel → content (o * 4 + i) = magicByte i

/-- The first word that is the magic has the header, or there is no header and none can be taken for
one; without such a word, none can be taken for one at the words that were not read. -/
structure Safe (got : ℕ → ℕ) : Prop where
  found : ∀ o, firstMagic kernel content = some o → Passes content got o ∨
    (∀ o, o * 4 + mboot1HeaderSize ≤ searched kernel → ¬ HeaderAt content o) ∧
      ¬ CanPass kernel m o
  stale : firstMagic kernel content = none →
    ∀ o, MayBeMagic kernel content o → ¬ CanPass kernel m o

variable {kernel m content} {got : ℕ → ℕ} {buffer b h : Bytes} {n o k : ℕ}

/-- The word of the buffer is the magic. -/
def isMagic (buffer : Bytes) (o : ℕ) : Bool := le32 buffer (o * 4) = mboot1HeaderMagic

lemma isMagic_iff : isMagic buffer o = true ↔ le32 buffer (o * 4) = mboot1HeaderMagic :=
  decide_eq_true_iff

/-- The loop stops at the first word that is the magic. -/
lemma searchLoop_eq (mm : Bmalloc) (header : Option Bytes) :
    searchLoop kernel mm header buffer n k =
      (((List.range' k n).find? (isMagic buffer)).map (readHeader kernel mm header)).getD
        (-efault, none) := by
  induction n generalizing k with
  | zero => rfl
  | succ n ih =>
    rw [searchLoop, List.range'_succ, List.find?_cons]
    cases hm : isMagic buffer k with
    | true =>
      rw [if_neg (not_not.2 (isMagic_iff.1 hm)), Option.map_some, Option.getD_some]
    | false =>
      rw [if_pos (mt isMagic_iff.2 (Bool.eq_false_iff.1 hm)), ih]

/-! ### The buffer -/

/-- The buffer after the read. -/
def loaded (kernel : File) (content b : Bytes) : Bytes :=
  fun i => if i < searched kernel then content i else b i

lemma le32_eq_iff {a c : Bytes} {p q : ℕ} :
    le32 a p = le32 c q ↔ ∀ i < 4, a (p + i) = c (q + i) := by
  constructor
  · intro h i hi
    have ha := fun j => (a (p + j)).toNat_lt
    have hc := fun j => (c (q + j)).toNat_lt
    have ha0 := ha 0
    have hc0 := hc 0
    have ha1 := ha 1
    have hc1 := hc 1
    have ha2 := ha 2
    have hc2 := hc 2
    have ha3 := ha 3
    have hc3 := hc 3
    unfold le32 at h
    rw [Nat.add_zero] at ha0 hc0
    apply UInt8.toNat_inj.1
    interval_cases i
    · rw [Nat.add_zero, Nat.add_zero]
      omega
    · omega
    · omega
    · omega
  · exact fun h => le32_congr h

lemma le32_magic : le32 magicByte 0 = mboot1HeaderMagic := by decide

lemma isMagic_iff_bytes : isMagic buffer o = true ↔ ∀ i < 4, buffer (o * 4 + i) = magicByte i := by
  rw [isMagic_iff, ← le32_magic, le32_eq_iff]
  simp only [Nat.zero_add]

/-- A word that was read as a whole is that of the file. -/
lemma isMagic_loaded (h : o * 4 + 4 ≤ searched kernel) :
    isMagic (loaded kernel content b) o = isMagic content o := by
  rw [Bool.eq_iff_iff, isMagic_iff_bytes, isMagic_iff_bytes]
  refine forall₂_congr fun i hi => ?_
  rw [loaded, if_pos (by omega)]

lemma firstMagic_some (h : firstMagic kernel content = some o) :
    o < mboot1SearchCount ∧ o * 4 + 4 ≤ searched kernel ∧ isMagic content o = true ∧
      ∀ k < o, isMagic content k = false := by
  obtain ⟨hfound, hmem, hbefore⟩ := List.find?_range_eq_some.1 h
  obtain ⟨hwhole, hmagic⟩ := of_decide_eq_true hfound
  refine ⟨List.mem_range.1 hmem, hwhole, isMagic_iff.2 hmagic, fun k hk => ?_⟩
  have hnot := hbefore k hk
  rw [Bool.not_eq_true', decide_eq_false_iff_not] at hnot
  exact Bool.eq_false_iff.2 fun hm => hnot ⟨by omega, isMagic_iff.1 hm⟩

lemma firstMagic_none (h : firstMagic kernel content = none) (ho : o < mboot1SearchCount)
    (hwhole : o * 4 + 4 ≤ searched kernel) : isMagic content o = false := by
  have hnot := List.find?_range_eq_none.1 h o ho
  rw [Bool.not_eq_true', decide_eq_false_iff_not] at hnot
  exact Bool.eq_false_iff.2 fun hm => hnot ⟨hwhole, isMagic_iff.1 hm⟩

/-- Where the first magic is one of the file, it is found there, whatever the memory held. -/
lemma find_loaded (h : firstMagic kernel content = some o) (b : Bytes) :
    (List.range' 0 mboot1SearchCount).find? (isMagic (loaded kernel content b)) = some o := by
  obtain ⟨ho, hwhole, hmagic, hbefore⟩ := firstMagic_some h
  rw [← List.range_eq_range', List.find?_range_eq_some]
  refine ⟨?_, List.mem_range.2 ho, fun k hk => ?_⟩
  · rw [isMagic_loaded hwhole, hmagic]
  · rw [isMagic_loaded (by omega), hbefore k hk]
    rfl

/-- Where it is not, what is found is a word that was not read. -/
lemma find_stale (h : firstMagic kernel content = none)
    (hfind : (List.range' 0 mboot1SearchCount).find? (isMagic (loaded kernel content b)) = some o) :
    MayBeMagic kernel content o := by
  rw [← List.range_eq_range', List.find?_range_eq_some] at hfind
  obtain ⟨hmagic, hmem, -⟩ := hfind
  have ho := List.mem_range.1 hmem
  have hpart : searched kernel < o * 4 + 4 := by
    by_contra hwhole
    rw [isMagic_loaded (not_lt.1 hwhole), firstMagic_none h ho (not_lt.1 hwhole)] at hmagic
    cases hmagic
  refine ⟨ho, hpart, fun i hi hread => ?_⟩
  have hbyte := isMagic_iff_bytes.1 hmagic i hi
  rwa [loaded, if_pos hread] at hbyte

/-- Memory that has the magic at a word, and no other. -/
def stale (o : ℕ) : Bytes := fun i => if o * 4 ≤ i ∧ i < o * 4 + 4 then magicByte (i - o * 4) else 0

lemma magicByte_three : magicByte 3 ≠ 0 := by decide

/-- A word that was not read, and is zero at its end, is not the magic. -/
lemma not_isMagic_zero (hpart : searched kernel < o * 4 + 4) (hzero : b (o * 4 + 3) = 0) :
    isMagic (loaded kernel content b) o = false := by
  refine Bool.eq_false_iff.2 fun hm => magicByte_three ?_
  rw [← isMagic_iff_bytes.1 hm 3 (by decide), loaded, if_neg (by omega), hzero]

/-- Every word that may be the magic is found first in some memory. -/
lemma find_of_stale (h : firstMagic kernel content = none) (ho : MayBeMagic kernel content o) :
    (List.range' 0 mboot1SearchCount).find? (isMagic (loaded kernel content (stale o))) =
      some o := by
  obtain ⟨hlt, hpart, hbytes⟩ := ho
  rw [← List.range_eq_range', List.find?_range_eq_some]
  refine ⟨?_, List.mem_range.2 hlt, fun k hk => ?_⟩
  · rw [isMagic_iff_bytes]
    intro i hi
    unfold loaded
    split_ifs with hread
    · exact hbytes i hi hread
    · rw [stale, if_pos (by omega), Nat.add_sub_cancel_left]
  · rw [Bool.not_eq_true']
    by_cases hwhole : k * 4 + 4 ≤ searched kernel
    · rw [isMagic_loaded hwhole, firstMagic_none h (hk.trans hlt) hwhole]
    · refine not_isMagic_zero (not_le.1 hwhole) ?_
      rw [stale, if_neg (by omega)]

/-- In empty memory none is found. -/
lemma find_zero (h : firstMagic kernel content = none) :
    (List.range' 0 mboot1SearchCount).find? (isMagic (loaded kernel content fun _ => 0)) =
      none := by
  rw [← List.range_eq_range', List.find?_range_eq_none]
  intro k hk
  rw [Bool.not_eq_true']
  by_cases hwhole : k * 4 + 4 ≤ searched kernel
  · rw [isMagic_loaded hwhole, firstMagic_none h hk hwhole]
  · exact not_isMagic_zero (not_le.1 hwhole) rfl

/-! ### The header -/

lemma readHeader_or (mm : Bmalloc) (h : Bytes) (o : ℕ) :
    (readHeader kernel mm (some h) o).1 = 0 ∨ (readHeader kernel mm (some h) o).1 = -efault := by
  unfold readHeader
  dsimp only
  split_ifs
  · exact .inr rfl
  · exact .inr rfl
  · exact .inl rfl

lemma canPass_iff : CanPass kernel m o ↔ ∃ h, (readHeader kernel (m 1) (some h) o).1 = 0 := by
  refine exists_congr fun h => ?_
  have hfail : -efault ≠ 0 := by decide
  obtain ⟨n, header, hread⟩ : ∃ n header,
      fileRead (fileSeek kernel (o * 4)) (m 1) mboot1HeaderSize h = (n, header) := ⟨_, _, rfl⟩
  unfold readHeader
  dsimp only
  rw [hread]
  dsimp only
  constructor
  · rintro ⟨n', header', heq, hn, hok⟩
    obtain ⟨rfl, rfl⟩ := Prod.mk.inj heq
    rw [if_neg hn, hok, if_neg (by decide)]
  · intro hpass
    split_ifs at hpass with hn hok
    · exact absurd hpass hfail
    · exact absurd hpass hfail
    · exact ⟨n, header, rfl, hn, by simpa using hok⟩

lemma not_canPass (hno : ¬ CanPass kernel m o) (h : Bytes) :
    (readHeader kernel (m 1) (some h) o).1 = -efault :=
  (readHeader_or (m 1) h o).resolve_left fun h0 => hno (canPass_iff.2 ⟨h, h0⟩)

/-- The header as it is read over what the memory holds. -/
def loadedHeader (content : Bytes) (got : ℕ → ℕ) (o : ℕ) (h : Bytes) : Bytes :=
  fun i => if i < got o then content (o * 4 + i) else h i

lemma readHeader_eq (hread : Readable kernel m content got) (ho : o * 4 < kernel.length) :
    (readHeader kernel (m 1) (some h) o).1 = 0 ↔
      got o ≠ 0 ∧ checksumOk (loadedHeader content got o h) = true := by
  have hfile : fileRead (fileSeek kernel (o * 4)) (m 1) mboot1HeaderSize h =
      ((got o : ℤ), loadedHeader content got o h) := hread.header o h ho
  unfold readHeader
  dsimp only
  rw [hfile]
  dsimp only
  have hfail : -efault ≠ 0 := by decide
  by_cases hgot : got o = 0
  · rw [if_pos (Int.natCast_eq_zero.2 hgot)]
    exact iff_of_false hfail fun hp => hp.1 hgot
  · rw [if_neg (mt Int.natCast_eq_zero.1 hgot)]
    cases hok : checksumOk (loadedHeader content got o h) with
    | true =>
      exact iff_of_true rfl ⟨hgot, rfl⟩
    | false =>
      exact iff_of_false hfail fun hp => Bool.false_ne_true hp.2

lemma checksumOk_congr {a c : Bytes} (hac : ∀ i < 12, a i = c i) : checksumOk a = checksumOk c := by
  have hflags : le32 a 4 = le32 c 4 := le32_congr fun k hk => hac _ (by omega)
  have hcheck : le32 a 8 = le32 c 8 := le32_congr fun k hk => hac _ (by omega)
  rw [checksumOk, checksumOk, headerFlags, headerFlags, headerChecksum, headerChecksum, hflags,
    hcheck]

/-- With the three words from the file, the memory does not matter. -/
lemma loadedHeader_whole (hgot : 12 ≤ got o) (h : Bytes) :
    checksumOk (loadedHeader content got o h) = checksumOk fun i => content (o * 4 + i) :=
  checksumOk_congr fun i hi => if_pos (by omega)

/-- Other memory: the last byte of the checksum differs. -/
def spoiled (h : Bytes) : Bytes := fun i => if i = 11 then h 11 + 1 else h i

lemma spoiled_off {i : ℕ} (hi : i ≠ 11) : spoiled h i = h i := if_neg hi

lemma spoiled_last : spoiled h 11 ≠ h 11 := by
  rw [spoiled, if_pos rfl]
  simp

/-- Without the last of them, some memory makes the checksum wrong. -/
lemma exists_not_ok (hgot : got o < 12) (h : Bytes) :
    ∃ h', checksumOk (loadedHeader content got o h') = false := by
  cases hok : checksumOk (loadedHeader content got o h) with
  | false => exact ⟨h, hok⟩
  | true =>
    refine ⟨spoiled h, Bool.eq_false_iff.2 fun hok' => ?_⟩
    have hsum := of_decide_eq_true hok
    have hsum' := of_decide_eq_true hok'
    have hflags : headerFlags (loadedHeader content got o (spoiled h)) =
        headerFlags (loadedHeader content got o h) := by
      refine le32_congr fun k hk => ?_
      unfold loadedHeader
      rw [spoiled_off (by omega)]
    rw [hflags, ← hsum] at hsum'
    have hlast := le32_eq_iff.1 hsum' 3 (by decide)
    unfold loadedHeader at hlast
    rw [if_neg (by omega), if_neg (by omega)] at hlast
    exact spoiled_last hlast

/-! ### The search -/

/-- The result is that of the first word found. -/
lemma compare_eq (hread : Readable kernel m content got) (hlen : kernel.length ≠ 0) (b h : Bytes) :
    mboot1CompareSignature kernel m (some b) (some h) =
      (((List.range' 0 mboot1SearchCount).find? (isMagic (loaded kernel content b))).map
        (readHeader kernel (m 1) (some h))).getD (-efault, none) := by
  have hfirst : fileRead kernel (m 0) mboot1SearchLimit b =
      ((searched kernel : ℤ), loaded kernel content b) := hread.first b
  have hpos : searched kernel ≠ 0 := by
    unfold searched
    have hlimit : mboot1SearchLimit = 8144 := rfl
    omega
  unfold mboot1CompareSignature
  dsimp only
  rw [hfirst]
  dsimp only
  rw [if_neg (mt Int.natCast_eq_zero.1 hpos), searchLoop_eq]

/-- Of an empty file nothing is searched. -/
lemma compare_empty (hread : Readable kernel m content got) (hlen : kernel.length = 0)
    (b h : Bytes) : (mboot1CompareSignature kernel m (some b) (some h)).1 = -efault := by
  have hzero : searched kernel = 0 := by rw [searched, hlen, Nat.min_zero]
  have hfirst := hread.first b
  unfold mboot1CompareSignature
  dsimp only
  rw [hfirst, hzero]
  rfl

/-- With the magic in the file the result is that of its header. -/
lemma compare_some (hread : Readable kernel m content got) (hlen : kernel.length ≠ 0)
    (hfirst : firstMagic kernel content = some o) (b h : Bytes) :
    mboot1CompareSignature kernel m (some b) (some h) = readHeader kernel (m 1) (some h) o := by
  rw [compare_eq hread hlen, find_loaded hfirst]
  rfl

lemma searches_of_fails (hfail : ∀ b h, (mboot1CompareSignature kernel m (some b) (some h)).1 =
    -efault) (hnone : ∀ o, o * 4 + mboot1HeaderSize ≤ searched kernel → ¬ HeaderAt content o) :
    Searches kernel m content := by
  have hne : -efault ≠ 0 := by decide
  refine ⟨fun b h b' h' => ?_, fun b h h0 => ?_, fun o ho hheader => absurd hheader (hnone o ho)⟩
  · rw [hfail, hfail]
  · rw [hfail] at h0
    exact absurd h0 hne

/-- A header that is in the part that was read as a whole begins with a magic found there. -/
lemma isMagic_of_headerAt (h : HeaderAt content o) : isMagic content o = true := isMagic_iff.2 h.1

lemma safe_some (hfirst : firstMagic kernel content = some o) :
    Safe kernel m content got ↔ Passes content got o ∨
      (∀ o, o * 4 + mboot1HeaderSize ≤ searched kernel → ¬ HeaderAt content o) ∧
        ¬ CanPass kernel m o := by
  constructor
  · exact fun h => h.found o hfirst
  · refine fun h => ⟨fun o' ho' => ?_, fun hnone => ?_⟩
    · obtain rfl : o = o' := Option.some_inj.1 (hfirst.symm.trans ho')
      exact h
    · rw [hfirst] at hnone
      cases hnone

lemma safe_none (hfirst : firstMagic kernel content = none) :
    Safe kernel m content got ↔ ∀ o, MayBeMagic kernel content o → ¬ CanPass kernel m o := by
  constructor
  · exact fun h => h.stale hfirst
  · refine fun h => ⟨fun o ho => ?_, fun _ => h⟩
    rw [hfirst] at ho
    cases ho

/-- The file has the magic. -/
lemma searches_some (hread : Readable kernel m content got) (hlen : kernel.length ≠ 0)
    (hfirst : firstMagic kernel content = some o) :
    Searches kernel m content ↔ Safe kernel m content got := by
  rw [safe_some hfirst]
  obtain ⟨ho, hwhole, hmagic, hbefore⟩ := firstMagic_some hfirst
  have hle : searched kernel ≤ kernel.length := Nat.min_le_right _ _
  have hin : o * 4 < kernel.length := by omega
  have hcompare := fun b h => congrArg Prod.fst (compare_some hread hlen hfirst b h)
  constructor
  · intro hright
    by_cases hpass : Passes content got o
    · exact .inl hpass
    right
    have hno : ¬ CanPass kernel m o := by
      intro hcan
      obtain ⟨h, h0⟩ := canPass_iff.1 hcan
      obtain ⟨hgot, hok⟩ := (readHeader_eq hread hin).1 h0
      by_cases h12 : 12 ≤ got o
      · rw [loadedHeader_whole h12] at hok
        exact hpass ⟨h12, hok⟩
      · obtain ⟨h', hbad⟩ := exists_not_ok (not_le.1 h12) h
        have hsame := hright.same (fun _ => 0) h (fun _ => 0) h'
        rw [hcompare, hcompare, h0] at hsame
        rw [((readHeader_eq hread hin).1 hsame.symm).2] at hbad
        cases hbad
    refine ⟨fun o' ho' hheader => hno (canPass_iff.2 ⟨fun _ => 0, ?_⟩), hno⟩
    rw [← hcompare (fun _ => 0)]
    exact hright.complete o' ho' hheader _ _
  · rintro (⟨h12, hok⟩ | ⟨hnone, hno⟩)
    · have hzero : ∀ b h, (mboot1CompareSignature kernel m (some b) (some h)).1 = 0 := by
        intro b h
        rw [hcompare, readHeader_eq hread hin, loadedHeader_whole h12]
        exact ⟨by omega, hok⟩
      refine ⟨fun b h b' h' => by rw [hzero, hzero], fun _ _ _ => ⟨o, ?_, ?_, ?_, hok⟩,
        fun _ _ _ => hzero⟩
      · exact Nat.mul_lt_mul_of_pos_right ho (by decide)
      · exact (Nat.add_le_add_left h12 _).trans (hread.got_le o hin)
      · exact isMagic_iff.1 hmagic
    · refine searches_of_fails (fun b h => ?_) hnone
      rw [hcompare]
      exact not_canPass hno h

/-- The file does not have the magic where it is read. -/
lemma searches_none (hread : Readable kernel m content got) (hlen : kernel.length ≠ 0)
    (hfirst : firstMagic kernel content = none) :
    Searches kernel m content ↔ Safe kernel m content got := by
  rw [safe_none hfirst]
  constructor
  · intro hright o ho hcan
    obtain ⟨h, h0⟩ := canPass_iff.1 hcan
    have hsame := hright.same (stale o) h (fun _ => 0) h
    rw [compare_eq hread hlen, compare_eq hread hlen, find_of_stale hfirst ho, find_zero hfirst,
      Option.map_some, Option.getD_some, h0] at hsame
    have hne : (0 : ℤ) ≠ -efault := by decide
    exact hne hsame
  · intro hno
    refine searches_of_fails (fun b h => ?_) fun o ho hheader => ?_
    · rw [compare_eq hread hlen]
      cases hfind : (List.range' 0 mboot1SearchCount).find?
          (isMagic (loaded kernel content b)) with
      | none => rfl
      | some o => exact not_canPass (hno o (find_stale hfirst hfind)) h
    · have hlimit : searched kernel ≤ 8144 := Nat.min_le_left _ _
      have hcount : mboot1SearchCount = 2048 := rfl
      have hsize : mboot1HeaderSize = 48 := rfl
      have hmagic := firstMagic_none hfirst (by omega : o < mboot1SearchCount) (by omega)
      rw [isMagic_of_headerAt hheader] at hmagic
      cases hmagic

/-- **The search** depends on the file alone, and finds a header where there is one, if and only if
the file is empty, or the first magic in it has the header or none is there, and nothing can be
taken for a header that was not read from the file. -/
theorem searches_iff (hread : Readable kernel m content got) :
    Searches kernel m content ↔ kernel.length = 0 ∨ Safe kernel m content got := by
  by_cases hlen : kernel.length = 0
  · refine iff_of_true (searches_of_fails (compare_empty hread hlen) fun o ho => ?_) (.inl hlen)
    have hsize : mboot1HeaderSize = 48 := rfl
    rw [searched, hlen, Nat.min_zero] at ho
    omega
  rw [or_iff_right hlen]
  rcases Option.eq_none_or_eq_some (firstMagic kernel content) with hfirst | ⟨o, hfirst⟩
  · exact searches_none hread hlen hfirst
  · exact searches_some hread hlen hfirst

/-! ### Files on a disc -/

/-- A disc that has the bytes in its second block. -/
def onDisc (bytes : List UInt8) : Super.Superblock :=
  { Super.smallSuper with
    bdev := { Super.smallSuper.bdev with byte := fun i => bytes.getD (i - 1024) 0 } }

lemma onDisc_byte (bytes : List UInt8) (i : ℕ) :
    (onDisc bytes).bdev.byte i = bytes.getD (i - 1024) 0 := rfl

def fileOn (bytes : List UInt8) (h : bytes.length < 2 ^ 32) : File :=
  ⟨⟨onDisc bytes, .isofs 1⟩, 0, bytes.length, h⟩

lemma fileOn_vfs {bytes : List UInt8} (hb : bytes.length < 2 ^ 32) (m : Bmalloc)
    (seek offset n : ℕ) (buffer : Bytes) :
    vfsRead (fileSeek (fileOn bytes hb) seek).node m offset n buffer =
      isofsRead (onDisc bytes) 1 (m.call 0) offset n buffer := rfl

/-- A file of an ISO disc whose blocks can all be read. -/
lemma isofsRead_reads {sb : Super.Superblock} {ino offset n start : ℕ}
    {bmalloc : ℕ → Option Bytes} {blkbuf : Bytes}
    (hstart : u64 (u32 (sb.blockSize * ino) + offset) = start)
    (hlogs : sb.bdev.blockLogs ≤ sb.blockLogs) (hm : bmalloc sb.blockSize = some blkbuf)
    (hn : 1 ≤ n) (hlt : n < 2 ^ 32) (h64 : start + n ≤ 2 ^ 64)
    (hok : ∀ blk, ¬ Super.BlockFails sb blk) (buffer : Bytes) :
    isofsRead sb ino bmalloc offset n buffer =
      (n, fun i => if i < n then sb.bdev.byte (start + i) else buffer i) := by
  obtain ⟨buffer', hread, hbuffer⟩ :=
    Super.readOffset_reads hlogs hm hn hlt h64 buffer fun blk _ _ => hok blk
  unfold isofsRead
  dsimp only
  rw [hstart, hread, if_neg (not_not.2 rfl), funext hbuffer]

lemma fileRead_of {file : File} {mm : Bmalloc} {nbytes n : ℕ} {buffer buffer' : Bytes}
    (hlen : min nbytes (sub32 file.length file.offset) = n)
    (hvfs : vfsRead file.node mm file.offset n buffer = (n, buffer')) (hn : n < 2 ^ 31) :
    fileRead file mm nbytes buffer = ((n : ℤ), buffer') := by
  rw [fileRead, hlen, hvfs]
  dsimp only
  rw [int32, if_pos hn]

lemma fileOn_read {bytes : List UInt8} (hb : bytes.length < 2 ^ 32) {offset : ℕ}
    (hn : offset < bytes.length) (nbytes : ℕ) (hnb : nbytes ≠ 0) (hsmall : nbytes < 2 ^ 31)
    (buffer : Bytes) :
    fileRead (fileSeek (fileOn bytes hb) offset) plenty nbytes buffer =
      (((min nbytes (bytes.length - offset) : ℕ) : ℤ), fun i =>
        if i < min nbytes (bytes.length - offset) then bytes.getD (offset + i) 0
        else buffer i) := by
  have hlength : sub32 (fileSeek (fileOn bytes hb) offset).length
      (fileSeek (fileOn bytes hb) offset).offset = bytes.length - offset := sub32_of_le hn.le hb
  have hsize : (onDisc bytes).blockSize = 1024 := rfl
  have hstart : u64 (u32 ((onDisc bytes).blockSize * 1) + offset) = 1024 + offset := by
    rw [hsize, u32_of_lt (by decide), Nat.mul_one]
    exact u64_of_lt (by omega)
  have hlogs : (onDisc bytes).bdev.blockLogs ≤ (onDisc bytes).blockLogs :=
    (by decide : 9 ≤ 10)
  obtain ⟨n, hnn⟩ : ∃ n, n = min nbytes (bytes.length - offset) := ⟨_, rfl⟩
  have hiso := isofsRead_reads hstart hlogs (plenty_call 0 _) (by omega : 1 ≤ n)
    (by omega) (by omega) (fun _ => Bool.false_ne_true) buffer
  have hbyte : ∀ i, (onDisc bytes).bdev.byte (1024 + offset + i) = bytes.getD (offset + i) 0 := by
    intro i
    rw [onDisc_byte, Nat.add_assoc, Nat.add_sub_cancel_left]
  simp only [hbyte] at hiso
  have hoffset : (fileSeek (fileOn bytes hb) offset).offset = offset := rfl
  rw [← hnn]
  refine fileRead_of (by rw [hlength, ← hnn]) ?_ (by omega)
  rw [hoffset, fileOn_vfs, hiso]

lemma readable_fileOn {bytes : List UInt8} (hb : bytes.length < 2 ^ 32) (hne : bytes ≠ []) :
    Readable (fileOn bytes hb) (fun _ => plenty) (fun i => bytes.getD i 0)
      fun o => min mboot1HeaderSize (bytes.length - o * 4) := by
  have hpos := List.length_pos_iff.2 hne
  refine ⟨fun b => ?_, fun o h ho => ?_, fun o ho => ?_⟩
  · have hread := fileOn_read hb hpos mboot1SearchLimit (by decide) (by decide) b
    rw [Nat.sub_zero] at hread
    simp only [Nat.zero_add] at hread
    exact hread
  · exact fileOn_read hb ho mboot1HeaderSize (by decide) (by decide) h
  · have hlt : o * 4 < bytes.length := ho
    have hlen : (fileOn bytes hb).length = bytes.length := rfl
    omega

/-- A header with no flags. -/
def headerBytes : List UInt8 := [0x02, 0xb0, 0xad, 0x1b, 0, 0, 0, 0, 0xfe, 0x4f, 0x52, 0xe4]

lemma headerBytes_lt : headerBytes.length < 2 ^ 32 := by decide

lemma searches_iff_header :
    Searches (fileOn headerBytes headerBytes_lt) (fun _ => plenty) (fun i => headerBytes.getD i 0) ↔
      (fileOn headerBytes headerBytes_lt).length = 0 ∨
        Safe (fileOn headerBytes headerBytes_lt) (fun _ => plenty)
          (fun i => headerBytes.getD i 0)
          fun o => min mboot1HeaderSize (headerBytes.length - o * 4) :=
  searches_iff (readable_fileOn headerBytes_lt (List.cons_ne_nil _ _))

/-- The file ends behind the flags. -/
def cutBytes : List UInt8 := headerBytes.take 8

lemma cutBytes_lt : cutBytes.length < 2 ^ 32 := by decide

/-- The checksum is taken from the memory that the header is read to. -/
lemma not_searches_cut :
    (mboot1CompareSignature (fileOn cutBytes cutBytes_lt) (fun _ => plenty) (some fun _ => 0)
        (some fun i => headerBytes.getD i 0)).1 = 0 ∧
      (mboot1CompareSignature (fileOn cutBytes cutBytes_lt) (fun _ => plenty) (some fun _ => 0)
        (some fun _ => 0)).1 = -efault ∧
      ¬ Searches (fileOn cutBytes cutBytes_lt) (fun _ => plenty) fun i => cutBytes.getD i 0 := by
  have hgood : (mboot1CompareSignature (fileOn cutBytes cutBytes_lt) (fun _ => plenty)
      (some fun _ => 0) (some fun i => headerBytes.getD i 0)).1 = 0 := by decide +kernel
  have hbad : (mboot1CompareSignature (fileOn cutBytes cutBytes_lt) (fun _ => plenty)
      (some fun _ => 0) (some fun _ => 0)).1 = -efault := by decide +kernel
  refine ⟨hgood, hbad, fun h => ?_⟩
  have hsame := h.same (fun _ => 0) (fun i => headerBytes.getD i 0) (fun _ => 0) fun _ => 0
  rw [hgood, hbad] at hsame
  exact absurd hsame (by decide)

end Elfboot.Mboot1Search
