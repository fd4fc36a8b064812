import Elfboot.FileRead
import Elfboot.Run

/-!
Runs of `file_seek` and `file_read` on an open file, with what is asked of the file system.
-/

namespace Elfboot.FileRuns

open Elfboot.Word Elfboot.Buffer Elfboot.Super Elfboot.FileRead Elfboot.Run

abbrev fileSet : ℤ := 0
abbrev fileCur : ℤ := 1
abbrev fileEnd : ℤ := 2

/-- `file_seek`: it never fails. -/
def fileSeek (file : File) (pos : ℤ) (offset : ℕ) : File :=
  let fpos :=
    if pos = fileSet then offset
    else if pos = fileCur then u32 (file.offset + offset)
    else if pos = fileEnd then sub32 file.length offset
    else file.offset
  { file with offset := fpos }

/-- The offset and the length that `file_read` passes to `vfs_read`. -/
def fileRequest (file : File) (nbytes : ℕ) : ℕ × ℕ :=
  (file.offset, min nbytes (sub32 file.length file.offset))

variable {file : File}

lemma fileSeek_set (offset : ℕ) :
    fileSeek file fileSet offset = FileRead.fileSeek file offset := rfl

@[simp] lemma fileSeek_length (file : File) (pos : ℤ) (offset : ℕ) :
    (fileSeek file pos offset).length = file.length := rfl

/-! ### Runs -/

inductive Op
  | seek (pos : ℤ) (offset : ℕ) (offset_lt : offset < 2 ^ 32)
  | read (nbytes : ℕ)

/-- An open file, with what was asked of the file system so far. -/
structure State where
  file : File
  requests : List (ℕ × ℕ)

def step (s : State) : Op → State
  | .seek pos offset _ => { s with file := fileSeek s.file pos offset }
  | .read nbytes => { s with requests := s.requests ++ [fileRequest s.file nbytes] }

/-- The calls on a file, as `file_open` leaves it. -/
def calls : System State Op where
  init s := s.file.offset = 0 ∧ s.requests = []
  pre _ _ := True
  step := step

/-- A request is for bytes of the file. -/
def Inside (length : ℕ) (q : ℕ × ℕ) : Prop := q.1 + q.2 ≤ length

/-- The file is not read behind its end. -/
def ReadOk (s : State) : Op → Prop
  | .seek _ _ _ => True
  | .read _ => s.file.offset ≤ s.file.length

/-- A request is for bytes of the file where the offset is in the file, or at its end. -/
lemma inside_request_iff (file : File) (nbytes : ℕ) :
    Inside file.length (fileRequest file nbytes) ↔ file.offset ≤ file.length := by
  unfold Inside fileRequest
  dsimp only
  constructor
  · intro h
    omega
  · intro h
    rw [sub32_of_le h file.length_lt]
    omega

lemma step_length (s : State) (op : Op) : (step s op).file.length = s.file.length := by
  cases op <;> rfl

/-- What one call adds to the requests. -/
lemma step_inside_iff (s : State) (op : Op) :
    (∀ q ∈ (step s op).requests, Inside s.file.length q) ↔
      (∀ q ∈ s.requests, Inside s.file.length q) ∧ ReadOk s op := by
  cases op with
  | seek pos offset lt => exact (and_iff_left trivial).symm
  | read nbytes =>
    unfold step ReadOk
    dsimp only
    rw [List.forall_mem_append, List.forall_mem_singleton, inside_request_iff]

/-- A whole run, from any state on. -/
lemma run_inside_iff (ops : List Op) (s : State) :
    (∀ q ∈ (calls.run s ops).requests, Inside s.file.length q) ↔
      (∀ q ∈ s.requests, Inside s.file.length q) ∧ (calls.restrict ReadOk).Takes s ops := by
  induction ops generalizing s with
  | nil => exact (and_iff_left trivial).symm
  | cons op ops ih =>
    have hrest := ih (step s op)
    rw [step_length, step_inside_iff] at hrest
    refine hrest.trans (and_assoc.trans (and_congr_right fun _ => ?_))
    exact and_congr_left fun _ => (and_iff_right trivial).symm

/-- **Reads stay in the file** in exactly the runs that never read with the offset behind the
end of the file. -/
theorem requests_inside_iff (file : File) (ops : List Op) :
    (∀ q ∈ (calls.run ⟨file, []⟩ ops).requests, Inside file.length q) ↔
      (calls.restrict ReadOk).Takes ⟨file, []⟩ ops :=
  (run_inside_iff ops ⟨file, []⟩).trans (and_iff_right (List.forall_mem_nil _))

/-! ### Seeks that stay in the file -/

/-- Where a seek goes, as an integer, is in the file or at its end. A seek from the offset on
may go back, by what the addition loses. -/
def SeekInside (file : File) (pos : ℤ) (offset : ℕ) : Prop :=
  if pos = fileSet then offset ≤ file.length
  else if pos = fileCur then
    file.offset + offset ≤ file.length ∨
      2 ^ 32 ≤ file.offset + offset ∧ file.offset + offset ≤ 2 ^ 32 + file.length
  else if pos = fileEnd then offset ≤ file.length
  else file.offset ≤ file.length

lemma fileSeek_le_iff {pos : ℤ} {offset : ℕ} (hfile : file.offset ≤ file.length)
    (hlt : offset < 2 ^ 32) :
    (fileSeek file pos offset).offset ≤ file.length ↔ SeekInside file pos offset := by
  have hlength := file.length_lt
  unfold fileSeek SeekInside sub32 u32
  dsimp only
  split_ifs
  · exact Iff.rfl
  · omega
  · omega
  · exact Iff.rfl

/-- The seeks of the run stay in the file. -/
def SeekOk (s : State) : Op → Prop
  | .seek pos offset _ => SeekInside s.file pos offset
  | .read _ => True

/-- The offset is in the file or at its end, and so was all that was asked for. -/
def Within (s : State) : Prop :=
  s.file.offset ≤ s.file.length ∧ ∀ q ∈ s.requests, Inside s.file.length q

lemma within_step {s : State} {op : Op} (h : Within s) (hop : SeekOk s op) :
    Within (step s op) := by
  have hread : ReadOk s op := by
    cases op with
    | seek pos offset lt => exact trivial
    | read nbytes => exact h.1
  have hrequests := (step_inside_iff s op).2 ⟨h.2, hread⟩
  unfold Within
  rw [step_length]
  refine ⟨?_, hrequests⟩
  cases op with
  | seek pos offset lt => exact (fileSeek_le_iff h.1 lt).2 hop
  | read nbytes => exact h.1

/-- Where the seeks stay in the file, so do the reads. -/
theorem within_of_seeks {s : State} (h : Reach (calls.restrict SeekOk) s) : Within s :=
  h.invariant_restrict
    (fun _ h0 => ⟨h0.1.trans_le (Nat.zero_le _), h0.2.symm ▸ List.forall_mem_nil _⟩)
    fun _ _ hs _ hop => within_step hs hop

/-! ### A kernel image that is too short for its header -/

lemma kernel_length_lt : 100 < 2 ^ 32 := by decide

lemma header_offset_lt : 0x1f1 < 2 ^ 32 := by decide

def kernel : File := ⟨⟨smallSuper, .isofs 0⟩, 0, 100, kernel_length_lt⟩

/-- The first two calls of `lxboot_prepare_kernel`. -/
def readHeader : List Op := [.seek fileSet 0x1f1 header_offset_lt, .read rmHeaderSize]

theorem not_inside_kernel :
    ¬ ∀ q ∈ (calls.run ⟨kernel, []⟩ readHeader).requests, Inside kernel.length q := by
  intro h
  have hbehind : ¬ (fileSeek kernel fileSet 0x1f1).offset ≤ kernel.length := by decide
  exact hbehind ((inside_request_iff _ rmHeaderSize).1 (h _ List.mem_cons_self))

end Elfboot.FileRuns
