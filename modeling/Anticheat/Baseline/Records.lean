import Anticheat.Lib.CText

/-!
# Baseline records

The baseline file of one path: a line of text for each record, with its key in hexadecimal and the
digest as a word. What `baseline_save_record` prints, `baseline_load_records` reads back.
-/

namespace Anticheat.Baseline

open CText

/-- `AC_BASELINE_MAX_RECORDS` -/
def acBaselineMaxRecords : ℕ := 256

/-- `struct ac_baseline_rec` -/
structure AcBaselineRec where
  inode : UInt64
  offset : UInt64
  size : UInt64
  hex : Bytes
  deriving DecidableEq, Repr

namespace AcBaselineRec

/-- What a record is replaced by. -/
def key (r : AcBaselineRec) : UInt64 × UInt64 × UInt64 := (r.inode, r.offset, r.size)

/-- The digest is a word of 1 to 64 bytes. -/
def Valid (r : AcBaselineRec) : Prop :=
  r.hex ≠ [] ∧ r.hex.length ≤ 64 ∧ ∀ c ∈ r.hex, isspace c = false ∧ c ≠ 0

/-- The line `"%llx %llx %llx %s\n"` without its newline. -/
def line (r : AcBaselineRec) : Bytes :=
  printHex r.inode.toNat ++ 32 :: (printHex r.offset.toNat ++ 32 ::
    (printHex r.size.toNat ++ 32 :: r.hex))

end AcBaselineRec

/-- The file that holds the records. -/
def render (recs : List AcBaselineRec) : Bytes := recs.flatMap fun r => r.line ++ [10]

/-- `sscanf` with `"%llx %llx %llx %64s"` -/
def scanRecord (buf : Bytes) : Option AcBaselineRec := do
  let (inode, l) ← scanHex (buf.takeWhile (· ≠ 0))
  let (offset, l) ← scanHex l
  let (size, l) ← scanHex l
  let hex ← firstField l
  return ⟨inode, offset, size, hex.take 64⟩

/-- `sscanf` with `"%llx %llx %64s"`: the line of an earlier format. -/
def scanLegacy (buf : Bytes) : Bool :=
  (do
    let (_, l) ← scanHex (buf.takeWhile (· ≠ 0))
    let (_, l) ← scanHex l
    firstField l).isSome

/-- The loop of `baseline_load_records` over the pieces that `fgets` reads: the records and whether
a line of the earlier format was met. -/
def loadLoop (recs : List AcBaselineRec) (legacy : Bool) : List Bytes → List AcBaselineRec × Bool
  | [] => (recs, legacy)
  | l :: ls =>
    if recs.length < acBaselineMaxRecords then
      match scanRecord l with
      | some r => loadLoop (recs ++ [r]) legacy ls
      | none => loadLoop recs (legacy || scanLegacy l) ls
    else (recs, legacy)

/-- How the reads of a file go: it cannot be opened, or a read fails after `n` lines. -/
inductive ReadFault
  | none
  | opening
  | reading (n : ℕ)
  deriving DecidableEq, Repr

/-- The pieces that are read of a file; a file that is not there cannot be opened. -/
def readPieces (fault : ReadFault) (file : Option Bytes) : List Bytes :=
  match file, fault with
  | some text, .none => fgetsAll 512 text
  | some text, .reading n => (fgetsAll 512 text).take n
  | some _, .opening => []
  | .none, _ => []

/-- `baseline_load_records` -/
def baselineLoadRecords (fault : ReadFault) (file : Option Bytes) : List AcBaselineRec × Bool :=
  loadLoop [] false (readPieces fault file)

/-! ### Reading back -/

variable {r : AcBaselineRec} {recs : List AcBaselineRec}

lemma firstField_word {w : Bytes} (hne : w ≠ []) (hw : ∀ c ∈ w, isspace c = false) :
    firstField w = some w := by
  obtain ⟨c, w, rfl⟩ := List.exists_cons_of_ne_nil hne
  have hdrop : (c :: w).dropWhile isspace = c :: w := by
    simp [hw c List.mem_cons_self]
  have htake : (c :: w).takeWhile (!isspace ·) = c :: w :=
    List.takeWhile_eq_self_iff.mpr fun d hd => by simp [hw d hd]
  rw [firstField, hdrop, htake]

lemma firstField_space (l : Bytes) : firstField (32 :: l) = firstField l := by
  simp [firstField, show isspace 32 = true from rfl]

/-- The bytes of a line: digits, spaces and the digest. -/
lemma mem_line (hr : r.Valid) {c : UInt8} (hc : c ∈ r.line) : c ≠ 0 ∧ c ≠ 10 := by
  have hdigit : ∀ n, c ∈ printHex n → c ≠ 0 ∧ c ≠ 10 := by
    intro n hc
    obtain ⟨d, hd, rfl⟩ := mem_printHex hc
    exact ⟨(hexDigit_ne hd).2.1, (hexDigit_ne hd).2.2.1⟩
  simp only [AcBaselineRec.line, List.mem_append, List.mem_cons] at hc
  rcases hc with hc | rfl | hc | rfl | hc | rfl | hc
  · exact hdigit _ hc
  · decide
  · exact hdigit _ hc
  · decide
  · exact hdigit _ hc
  · decide
  · obtain ⟨hspace, h0⟩ := hr.2.2 c hc
    refine ⟨h0, ?_⟩
    rintro rfl
    exact absurd hspace (by decide)

lemma length_printHex_le (n : UInt64) : (printHex n.toNat).length ≤ 16 := by
  rw [printHex_eq, List.length_map]
  exact length_baseDigits_le (by decide) (by decide) n.toNat_lt

lemma length_line_le (hr : r.Valid) : r.line.length ≤ 115 := by
  have h1 := length_printHex_le r.inode
  have h2 := length_printHex_le r.offset
  have h3 := length_printHex_le r.size
  have h4 := hr.2.1
  simp only [AcBaselineRec.line, List.length_append, List.length_cons]
  omega

/-- A printed record is read back. -/
lemma scanRecord_line (hr : r.Valid) : scanRecord (r.line ++ [10]) = some r := by
  have hnul : (r.line ++ [10]).takeWhile (· ≠ 0) = r.line ++ [10] := by
    refine List.takeWhile_eq_self_iff.mpr fun c hc => ?_
    rcases List.mem_append.mp hc with hc | hc
    · simpa using (mem_line hr hc).1
    · rw [List.mem_singleton.mp hc]
      rfl
  have hword : firstField (r.hex ++ [10]) = some r.hex := by
    rw [firstField_append_newline]
    exact firstField_word hr.1 fun c hc => (hr.2.2 c hc).1
  rw [scanRecord, hnul]
  simp only [AcBaselineRec.line, List.append_assoc, List.cons_append, scanHex_printHex,
    scanHex_space, firstField_space, hword, Option.bind_eq_bind, Option.bind_some,
    Option.pure_def, List.take_of_length_le hr.2.1]

lemma loadLoop_map_line (recs' : List AcBaselineRec) (hvalid : ∀ r ∈ recs, r.Valid)
    (hlen : recs'.length + recs.length ≤ acBaselineMaxRecords) (legacy : Bool) :
    loadLoop recs' legacy (recs.map fun r => r.line ++ [10]) = (recs' ++ recs, legacy) := by
  induction recs generalizing recs' with
  | nil => simp [loadLoop]
  | cons r recs ih =>
    rw [List.length_cons] at hlen
    rw [List.map_cons, loadLoop, if_pos (by omega), scanRecord_line (hvalid r List.mem_cons_self)]
    have hrest := ih (recs' ++ [r]) (fun q hq => hvalid q (List.mem_cons_of_mem _ hq))
      (by simp; omega)
    rwa [List.append_assoc, List.singleton_append] at hrest

lemma fgetsAll_render (hvalid : ∀ r ∈ recs, r.Valid) :
    fgetsAll 512 (render recs) = recs.map fun r => r.line ++ [10] := by
  induction recs with
  | nil => rfl
  | cons r recs ih =>
    have hr := hvalid r List.mem_cons_self
    have hlen := length_line_le hr
    rw [render, List.flatMap_cons, List.append_assoc, List.singleton_append,
      fgetsAll_append_newline (fun h => (mem_line hr h).2 rfl) (by omega), List.map_cons, ← render,
      ih fun q hq => hvalid q (List.mem_cons_of_mem _ hq)]

/-- A file that holds at most `AC_BASELINE_MAX_RECORDS` records is read back as those. -/
theorem baselineLoadRecords_render (hvalid : ∀ r ∈ recs, r.Valid)
    (hlen : recs.length ≤ acBaselineMaxRecords) :
    baselineLoadRecords .none (some (render recs)) = (recs, false) := by
  rw [baselineLoadRecords, readPieces, fgetsAll_render hvalid,
    loadLoop_map_line [] hvalid (by simpa), List.nil_append]

end Anticheat.Baseline
