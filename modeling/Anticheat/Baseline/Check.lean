import Anticheat.Baseline.Records
import Anticheat.Baseline.Runs
import Anticheat.Lib.Sweep

/-!
# Checking runs against baseline records

`baseline_check_run`. The verdict on a run is one to report exactly when a record that lies inside
it is not verified, when a byte of it is covered by a record but by none inside it, or when its
file has only records of the earlier format.
-/

namespace Anticheat.Baseline

open Hash Sweep

/-- `AC_HASH_CAP` -/
def acHashCap : UInt64 := 16 * 1024 * 1024

/-- `PATH_MAX` -/
def pathMax : ℕ := 4096

/-- The files of the baseline directory, by their names. -/
abbrev Files := Bytes → Option Bytes

/-- What can be read through `/proc/<pid>/mem`, `none` when it cannot be opened. -/
abbrev ProcMem := Option (UInt64 → Option UInt8)

/-- The bytes at `start`, if all of them can be read. -/
def readMem (mem : UInt64 → Option UInt8) (start : UInt64) (size : ℕ) : Option Bytes :=
  (List.range size).mapM fun k => mem (start + UInt64.ofNat k)

/-- `hash_proc_mem`: a range that cannot be read to its end has no digest. -/
def hashProcMem (mem : UInt64 → Option UInt8) (start size : UInt64) : Option Bytes :=
  (readMem mem start size.toNat).map acSha256Hex

/-- `baseline_path_for` -/
def baselinePathFor (dir path : Bytes) : Bytes :=
  (dir ++ [47] ++ acSha256Hex path ++ [46, 116, 120, 116]).take (pathMax - 1)

/-- The verdicts `AC_BL_*` -/
inductive AcBl
  | unbaselined
  | legacy
  | ok
  | hashFailed
  | partly
  | mismatch
  deriving DecidableEq, Repr

/-- The place of a verdict in the enumeration; the worst one wins. -/
def AcBl.rank : AcBl → ℕ
  | unbaselined => 0
  | legacy => 1
  | ok => 2
  | hashFailed => 3
  | partly => 4
  | mismatch => 5

lemma AcBl.eq_iff_rank (b c : AcBl) : b = c ↔ c.rank ≤ b.rank ∧ ¬ c.rank + 1 ≤ b.rank := by
  cases b <;> cases c <;> decide

lemma AcBl.not_six_le_rank (b : AcBl) : ¬ 6 ≤ b.rank := by
  cases b <;> decide

/-- `struct ac_bl_run_result` -/
structure AcBlRunResult where
  verdict : AcBl
  off : UInt64
  size : UInt64
  lenChanged : Bool
  deriving DecidableEq, Repr

/-- What a record is to a run. -/
inductive RecKind
  | elsewhere
  | fits
  | partly
  deriving DecidableEq, Repr

namespace Run

variable (R : Run) (mem : ProcMem)

/-- `run_len`, capped -/
def runLen : UInt64 := if acHashCap < R.re - R.rs then acHashCap else R.re - R.rs

/-- `kind[k]` -/
def kind (r : AcBaselineRec) : RecKind :=
  if r.inode ≠ R.first.inode ∨ r.size = 0 ∨ r.offset + r.size < r.offset then .elsewhere
  else if r.offset + r.size ≤ R.rs ∨ R.re ≤ r.offset then .elsewhere
  else if r.offset < R.rs ∨ R.re < r.offset + r.size then .partly
  else .fits

/-- The digest of the record's range in the run. -/
def digest (r : AcBaselineRec) : Option Bytes :=
  mem.bind fun m => hashProcMem m (R.first.start + (r.offset - R.rs)) r.size

/-- The verdict on a record that fits. -/
def recordVerdict (r : AcBaselineRec) : AcBl :=
  match R.digest mem r with
  | none => .hashFailed
  | some hex => if hex ≠ r.hex then .mismatch else .ok

/-- The first loop of `baseline_check_run`. -/
def checkFitting (res : AcBlRunResult) (r : AcBaselineRec) : AcBlRunResult :=
  if R.kind r = .fits then
    let verdict := R.recordVerdict mem r
    let lenChanged := res.lenChanged && !(r.offset = R.rs && r.size = R.runLen)
    if res.verdict.rank < verdict.rank then ⟨verdict, r.offset, r.size, lenChanged⟩
    else { res with lenChanged := lenChanged }
  else res

/-- The file ranges of the records that fit. -/
def fitting (recs : List AcBaselineRec) : List (ℕ × ℕ) :=
  (recs.filter (R.kind · = .fits)).map fun r => (r.offset.toNat, (r.offset + r.size).toNat)

/-- The second loop of `baseline_check_run`: the point `lo` advances across records that fit. -/
def checkPartly (recs : List AcBaselineRec) (res : AcBlRunResult) (r : AcBaselineRec) :
    AcBlRunResult :=
  if AcBl.partly.rank ≤ res.verdict.rank then res
  else if R.kind r ≠ .partly then res
  else
    let lo := max r.offset.toNat R.rs.toNat
    let hi := min (r.offset + r.size).toNat R.re.toNat
    if sweep (R.fitting recs) hi (R.fitting recs).length lo < hi then
      { res with verdict := .partly, off := r.offset, size := r.size }
    else res

/-- Both loops. -/
def loops (recs : List AcBaselineRec) : AcBlRunResult :=
  recs.foldl (R.checkPartly recs) (recs.foldl (R.checkFitting mem) ⟨.unbaselined, 0, 0, true⟩)

/-- The loops, and then the records of the earlier format. -/
def check (recs : List AcBaselineRec) (legacy : Bool) : AcBlRunResult :=
  let res := R.loops mem recs
  if res.verdict = .unbaselined && legacy then { res with verdict := .legacy } else res

end Run

/-- The records of a run's file, and whether it has lines of the earlier format. -/
def records (files : Files) (dir : Bytes) (R : Run) : List AcBaselineRec × Bool :=
  baselineLoadRecords .none (files (baselinePathFor dir R.first.path))

/-- `baseline_check_run` -/
def baselineCheckRun (files : Files) (dir : Bytes) (mem : ProcMem) (R : Run) : AcBlRunResult :=
  let (recs, legacy) := records files dir R
  R.check mem recs legacy

/-! ### Records and runs -/

namespace Run

variable {R : Run} {mem : ProcMem} {recs : List AcBaselineRec} {r : AcBaselineRec}

/-- The record is for the file of the run and its range is a range. -/
def Valid (R : Run) (r : AcBaselineRec) : Prop :=
  r.inode = R.first.inode ∧ r.size ≠ 0 ∧ r.offset.toNat + r.size.toNat < 2 ^ 64

/-- The record covers the byte of the file. -/
def Covers (r : AcBaselineRec) (x : ℕ) : Prop :=
  r.offset.toNat ≤ x ∧ x < r.offset.toNat + r.size.toNat

/-- The record's range is wholly inside the run. -/
def Inside (R : Run) (r : AcBaselineRec) : Prop :=
  R.lo ≤ r.offset.toNat ∧ r.offset.toNat + r.size.toNat ≤ R.hi

/-- The memory of the record's range is readable and hashes to its digest. -/
def Verified (R : Run) (mem : ProcMem) (r : AcBaselineRec) : Prop := R.digest mem r = some r.hex

lemma not_valid_iff : ¬ R.Valid r ↔
    r.inode ≠ R.first.inode ∨ r.size = 0 ∨ r.offset + r.size < r.offset := by
  have hr := r.offset.toNat_lt
  have hs := r.size.toNat_lt
  have hwrap : r.offset + r.size < r.offset ↔ 2 ^ 64 ≤ r.offset.toNat + r.size.toNat := by
    rw [UInt64.lt_iff_toNat_lt, UInt64.toNat_add]
    omega
  rw [Valid, hwrap]
  by_cases h1 : r.inode = R.first.inode <;> by_cases h2 : r.size = 0 <;> simp [h1, h2]

lemma Valid.toNat_add (h : R.Valid r) :
    (r.offset + r.size).toNat = r.offset.toNat + r.size.toNat := by
  rw [UInt64.toNat_add, Nat.mod_eq_of_lt h.2.2]

lemma Valid.pos (h : R.Valid r) : 0 < r.size.toNat := by
  have hne : r.size.toNat ≠ 0 := fun h0 => h.2.1 (UInt64.toNat_inj.mp h0)
  omega

lemma kind_of_not_valid (hv : ¬ R.Valid r) : R.kind r = .elsewhere := by
  rw [kind, if_pos (not_valid_iff.mp hv)]

/-- What a record is to the run, by the bytes of the file that it covers. -/
lemma kind_of_valid (hwf : R.Wf) (hv : R.Valid r) : R.kind r =
    if r.offset.toNat + r.size.toNat ≤ R.lo ∨ R.hi ≤ r.offset.toNat then .elsewhere
    else if r.offset.toNat < R.lo ∨ R.hi < r.offset.toNat + r.size.toNat then .partly
    else .fits := by
  rw [kind, if_neg fun h => not_valid_iff.mpr h hv]
  simp only [UInt64.le_iff_toNat_le, UInt64.lt_iff_toNat_lt, toNat_re hwf, toNat_rs, hv.toNat_add]

lemma kind_eq_fits (hwf : R.Wf) : R.kind r = .fits ↔ R.Valid r ∧ R.Inside r := by
  by_cases hv : R.Valid r
  · have hpos := hv.pos
    simp only [kind_of_valid hwf hv, Inside, hv, true_and]
    split_ifs <;> simp <;> omega
  · simp [kind_of_not_valid hv, hv]

/-- A record that partly overlaps the run has a byte in common with it and is not inside it. -/
lemma kind_eq_partly (hwf : R.Wf) : R.kind r = .partly ↔
    R.Valid r ∧ ¬ R.Inside r ∧ max r.offset.toNat R.lo < min (r.offset + r.size).toNat R.hi := by
  by_cases hv : R.Valid r
  · have hpos := hv.pos
    have hrange := hwf.lo_lt_hi
    simp only [kind_of_valid hwf hv, hv.toNat_add, Inside, hv, true_and]
    split_ifs <;> simp <;> omega
  · simp [kind_of_not_valid hv, hv]

/-- The intervals of the second loop are those of the records inside the run. -/
lemma covered_fitting (hwf : R.Wf) (x : ℕ) : Covered (R.fitting recs) x ↔
    ∃ r ∈ recs, R.Valid r ∧ R.Inside r ∧ Covers r x := by
  simp only [Covered, fitting, List.mem_map, List.mem_filter, decide_eq_true_eq, kind_eq_fits hwf]
  constructor
  · rintro ⟨i, ⟨r, ⟨hr, hv, hin⟩, rfl⟩, h1, h2⟩
    exact ⟨r, hr, hv, hin, h1, hv.toNat_add ▸ h2⟩
  · rintro ⟨r, hr, hv, hin, h1, h2⟩
    exact ⟨_, ⟨r, ⟨hr, hv, hin⟩, rfl⟩, h1, hv.toNat_add.symm ▸ h2⟩

/-! ### The loops -/

lemma two_le_rank_recordVerdict (r : AcBaselineRec) : 2 ≤ (R.recordVerdict mem r).rank := by
  unfold recordVerdict
  split
  · decide
  · split_ifs <;> decide

lemma three_le_rank_recordVerdict :
    3 ≤ (R.recordVerdict mem r).rank ↔ ¬ R.Verified mem r := by
  unfold recordVerdict Verified
  cases R.digest mem r with
  | none => simp [AcBl.rank]
  | some hex =>
    by_cases h : hex = r.hex <;> simp [h, AcBl.rank]

/-- The first loop ends with the worst verdict on a record that fits. -/
lemma le_rank_foldl_checkFitting (t : ℕ) (recs : List AcBaselineRec) (res : AcBlRunResult) :
    t ≤ (recs.foldl (R.checkFitting mem) res).verdict.rank ↔ t ≤ res.verdict.rank ∨
      ∃ r ∈ recs, R.kind r = .fits ∧ t ≤ (R.recordVerdict mem r).rank := by
  induction recs generalizing res with
  | nil => simp
  | cons r recs ih =>
    have hone : t ≤ (R.checkFitting mem res r).verdict.rank ↔ t ≤ res.verdict.rank ∨
        R.kind r = .fits ∧ t ≤ (R.recordVerdict mem r).rank := by
      unfold checkFitting
      by_cases hfit : R.kind r = .fits
      · simp only [hfit, if_true, true_and]
        split <;> simp only <;> omega
      · simp [hfit]
    rw [List.foldl_cons, ih, hone]
    simp only [List.mem_cons, exists_eq_or_imp, or_assoc]

/-- The second loop adds the verdict on the records that partly overlap the run. -/
lemma le_rank_foldl_checkPartly (t : ℕ) (all recs : List AcBaselineRec) (res : AcBlRunResult) :
    t ≤ (recs.foldl (R.checkPartly all) res).verdict.rank ↔ t ≤ res.verdict.rank ∨
      t ≤ AcBl.partly.rank ∧ ∃ r ∈ recs, R.kind r = .partly ∧
        ∃ x, max r.offset.toNat R.rs.toNat ≤ x ∧ x < min (r.offset + r.size).toNat R.re.toNat ∧
          ¬ Covered (R.fitting all) x := by
  induction recs generalizing res with
  | nil => simp
  | cons r recs ih =>
    have hone : t ≤ (R.checkPartly all res r).verdict.rank ↔ t ≤ res.verdict.rank ∨
        t ≤ AcBl.partly.rank ∧ R.kind r = .partly ∧
          ∃ x, max r.offset.toNat R.rs.toNat ≤ x ∧
            x < min (r.offset + r.size).toNat R.re.toNat ∧ ¬ Covered (R.fitting all) x := by
      unfold checkPartly
      simp only [← sweep_lt_iff]
      split_ifs with hdone hkind hsweep
      · constructor
        · exact .inl
        · rintro (h | ⟨h, -⟩) <;> omega
      · simp [hkind]
      · simp only [not_not.mp hkind, hsweep, and_self, and_true]
        omega
      · exact ⟨.inl, fun h => h.resolve_right fun h => hsweep h.2.2⟩
    rw [List.foldl_cons, ih, hone]
    simp only [List.mem_cons, exists_eq_or_imp, and_or_left, or_assoc]

/-- The record is inside the run and counts for it. -/
def Fits (R : Run) (r : AcBaselineRec) : Prop := R.Valid r ∧ R.Inside r

/-- A byte of the run is covered by a record, but by none that fits. -/
def Exposed (R : Run) (recs : List AcBaselineRec) : Prop :=
  ∃ r ∈ recs, R.Valid r ∧ ∃ x, Covers r x ∧ R.lo ≤ x ∧ x < R.hi ∧
    ∀ r' ∈ recs, R.Fits r' → ¬ Covers r' x

/-- How bad the verdict of the loops is. -/
lemma le_rank_loops (hwf : R.Wf) (t : ℕ) : t ≤ (R.loops mem recs).verdict.rank ↔
    t = 0 ∨ (∃ r ∈ recs, R.Fits r ∧ t ≤ (R.recordVerdict mem r).rank) ∨
      t ≤ 4 ∧ R.Exposed recs := by
  rw [loops, le_rank_foldl_checkPartly, le_rank_foldl_checkFitting, or_assoc]
  refine or_congr (by simp [AcBl.rank]) (or_congr ?_ (and_congr_right fun _ => ?_))
  · simp only [kind_eq_fits hwf, Fits]
  · refine exists_congr fun r => and_congr_right fun hr => ?_
    rw [kind_eq_partly hwf, toNat_re hwf, toNat_rs]
    constructor
    · rintro ⟨⟨hv, -, -⟩, x, hlo, hhi, hno⟩
      rw [covered_fitting hwf] at hno
      rw [hv.toNat_add] at hhi
      refine ⟨hv, x, ⟨by omega, by omega⟩, by omega, by omega, fun r' hr' hfit hc => ?_⟩
      exact hno ⟨r', hr', hfit.1, hfit.2, hc⟩
    · rintro ⟨hv, x, hc, hlo, hhi, hno⟩
      obtain ⟨h1, h2⟩ := id hc
      rw [hv.toNat_add]
      refine ⟨⟨hv, fun hin => hno r hr ⟨hv, hin⟩ hc, by omega⟩, x, by omega, by omega, ?_⟩
      rw [covered_fitting hwf]
      rintro ⟨r', hr', hv', hin', hc'⟩
      exact hno r' hr' ⟨hv', hin'⟩ hc'

/-- The loops find something bad exactly when a record that fits is not verified or a byte is
exposed. -/
lemma three_le_rank_loops (hwf : R.Wf) : 3 ≤ (R.loops mem recs).verdict.rank ↔
    (∃ r ∈ recs, R.Fits r ∧ ¬ R.Verified mem r) ∨ R.Exposed recs := by
  simp [le_rank_loops hwf, three_le_rank_recordVerdict]

/-- The loops come to a verdict exactly when a record fits or a byte is exposed. -/
lemma le_rank_loops_of_le_two (hwf : R.Wf) {t : ℕ} (hpos : 0 < t) (ht : t ≤ 2) :
    t ≤ (R.loops mem recs).verdict.rank ↔ (∃ r ∈ recs, R.Fits r) ∨ R.Exposed recs := by
  have hle : ∀ r, t ≤ (R.recordVerdict mem r).rank := fun r =>
    ht.trans (two_le_rank_recordVerdict r)
  simp [le_rank_loops hwf, hle, hpos.ne', show t ≤ 4 by omega]

/-- The loops leave the run without a verdict exactly when no record fits and none partly
overlaps it. -/
lemma loops_eq_unbaselined (hwf : R.Wf) : (R.loops mem recs).verdict = .unbaselined ↔
    (∀ r ∈ recs, ¬ R.Fits r) ∧ ¬ R.Exposed recs := by
  have hone : 1 ≤ (R.loops mem recs).verdict.rank ↔ _ :=
    le_rank_loops_of_le_two hwf Nat.one_pos (by decide)
  have hrank : (R.loops mem recs).verdict = .unbaselined ↔
      ¬ 1 ≤ (R.loops mem recs).verdict.rank :=
    (AcBl.eq_iff_rank _ _).trans (and_iff_right (Nat.zero_le _))
  rw [hrank, hone, not_or]
  simp

lemma loops_ne_legacy (hwf : R.Wf) : (R.loops mem recs).verdict ≠ .legacy := by
  rw [ne_eq, AcBl.eq_iff_rank]
  rintro ⟨hone, hnot⟩
  have hsome := (le_rank_loops_of_le_two hwf (by decide) (by decide)).mp hone
  exact hnot ((le_rank_loops_of_le_two hwf (by decide) (by decide)).mpr hsome)

/-- What the records of its file object to in a run: a record that fits is not verified, a byte is
exposed, or there are only lines of the earlier format. -/
def Finding (R : Run) (mem : ProcMem) (recs : List AcBaselineRec) (legacy : Bool) : Prop :=
  (∃ r ∈ recs, R.Fits r ∧ ¬ R.Verified mem r) ∨ R.Exposed recs ∨
    (legacy = true ∧ ∀ r ∈ recs, ¬ R.Fits r)

/-- The verdict is one to report exactly when there is a finding. -/
theorem check_loud_iff (hwf : R.Wf) (legacy : Bool) :
    ((R.check mem recs legacy).verdict ≠ .unbaselined ∧ (R.check mem recs legacy).verdict ≠ .ok) ↔
      R.Finding mem recs legacy := by
  have hbad : 3 ≤ (R.loops mem recs).verdict.rank ↔ _ := three_le_rank_loops hwf
  have hnone : (R.loops mem recs).verdict = .unbaselined ↔ _ := loops_eq_unbaselined hwf
  have hleg : (R.loops mem recs).verdict ≠ .legacy := loops_ne_legacy hwf
  unfold check Finding
  generalize R.loops mem recs = res at hbad hnone hleg
  rw [← or_assoc, ← hbad]
  by_cases hun : res.verdict = .unbaselined
  · have hrank : ¬ 3 ≤ AcBl.unbaselined.rank := by decide
    cases legacy with
    | false => simp [hun, hrank]
    | true => simpa [hun, hrank] using (hnone.mp hun).1
  · have hloud : res.verdict ≠ .ok ↔ 3 ≤ res.verdict.rank := by
      revert hun hleg
      cases res.verdict <;> simp [AcBl.rank]
    have hexposed : (∀ r ∈ recs, ¬ R.Fits r) → 3 ≤ res.verdict.rank := fun hno =>
      hbad.mpr (.inr (by_contra fun hex => hun (hnone.mpr ⟨hno, hex⟩)))
    simp only [hun, decide_false, Bool.false_and, Bool.false_eq_true, if_false, ne_eq,
      not_false_eq_true, true_and]
    rw [← ne_eq, hloud]
    exact ⟨.inl, Or.rec id fun h => hexposed h.2⟩

lemma check_false : R.check mem recs false = R.loops mem recs := by
  simp [check]

/-- A run is found in order exactly when a record fits, all that fit are verified, and no byte is
exposed. -/
lemma check_eq_ok_iff (hwf : R.Wf) : (R.check mem recs false).verdict = .ok ↔
    (∃ r ∈ recs, R.Fits r) ∧ (∀ r ∈ recs, R.Fits r → R.Verified mem r) ∧ ¬ R.Exposed recs := by
  have htwo : AcBl.ok.rank ≤ (R.loops mem recs).verdict.rank ↔ _ :=
    le_rank_loops_of_le_two hwf (by decide) (by decide)
  have hthree : AcBl.ok.rank + 1 ≤ (R.loops mem recs).verdict.rank ↔ _ := three_le_rank_loops hwf
  rw [check_false, AcBl.eq_iff_rank, htwo, hthree]
  constructor
  · rintro ⟨hfit, hno⟩
    rw [not_or] at hno
    refine ⟨hfit.resolve_right hno.2, fun r hr hf => ?_, hno.2⟩
    exact by_contra fun hv => hno.1 ⟨r, hr, hf, hv⟩
  · rintro ⟨hfit, hall, hex⟩
    refine ⟨.inl hfit, ?_⟩
    rintro (⟨r, hr, hf, hv⟩ | h)
    · exact hv (hall r hr hf)
    · exact hex h

/-- A byte that is exposed while all records that fit are verified makes the verdict
`AC_BL_PARTIAL`. -/
lemma check_eq_partly (hwf : R.Wf) (hall : ∀ r ∈ recs, R.Fits r → R.Verified mem r)
    (hex : R.Exposed recs) : (R.check mem recs false).verdict = .partly := by
  have hfour : 4 ≤ (R.loops mem recs).verdict.rank := by
    rw [le_rank_loops hwf]
    exact .inr (.inr ⟨Nat.le_refl 4, hex⟩)
  have hfive : ¬ 5 ≤ (R.loops mem recs).verdict.rank := by
    rw [le_rank_loops hwf]
    rintro (h | ⟨r, hr, hf, h⟩ | ⟨h, -⟩)
    · cases h
    · exact three_le_rank_recordVerdict.mp (Nat.le_trans (by decide) h) (hall r hr hf)
    · exact absurd h (by decide)
  rw [check_false, AcBl.eq_iff_rank]
  exact ⟨hfour, hfive⟩

/-! ### The verdict -/

/-- A record that fits is readable and its digest is another one. -/
def Differs (R : Run) (mem : ProcMem) (recs : List AcBaselineRec) : Prop :=
  ∃ r ∈ recs, R.Fits r ∧ ∃ hex, R.digest mem r = some hex ∧ hex ≠ r.hex

/-- A record that fits cannot be read. -/
def Unread (R : Run) (mem : ProcMem) (recs : List AcBaselineRec) : Prop :=
  ∃ r ∈ recs, R.Fits r ∧ R.digest mem r = none

/-- A record has a byte in common with the run. -/
def Overlapped (R : Run) (recs : List AcBaselineRec) : Prop :=
  ∃ r ∈ recs, R.Valid r ∧ ∃ x, Covers r x ∧ R.lo ≤ x ∧ x < R.hi

lemma four_le_rank_recordVerdict : 4 ≤ (R.recordVerdict mem r).rank ↔
    ∃ hex, R.digest mem r = some hex ∧ hex ≠ r.hex := by
  unfold recordVerdict
  cases R.digest mem r with
  | none => simp [AcBl.rank]
  | some hex => by_cases h : hex = r.hex <;> simp [h, AcBl.rank]

lemma five_le_rank_recordVerdict :
    5 ≤ (R.recordVerdict mem r).rank ↔ 4 ≤ (R.recordVerdict mem r).rank := by
  unfold recordVerdict
  split
  · decide
  · split_ifs <;> decide

lemma not_verified_iff : ¬ R.Verified mem r ↔
    (∃ hex, R.digest mem r = some hex ∧ hex ≠ r.hex) ∨ R.digest mem r = none := by
  unfold Verified
  cases R.digest mem r <;> simp

lemma five_le_rank_loops (hwf : R.Wf) :
    5 ≤ (R.loops mem recs).verdict.rank ↔ R.Differs mem recs := by
  simp [le_rank_loops hwf, five_le_rank_recordVerdict, four_le_rank_recordVerdict, Differs]

lemma four_le_rank_loops (hwf : R.Wf) :
    4 ≤ (R.loops mem recs).verdict.rank ↔ R.Differs mem recs ∨ R.Exposed recs := by
  simp [le_rank_loops hwf, four_le_rank_recordVerdict, Differs]

lemma three_le_rank_loops_iff (hwf : R.Wf) : 3 ≤ (R.loops mem recs).verdict.rank ↔
    R.Differs mem recs ∨ R.Exposed recs ∨ R.Unread mem recs := by
  rw [three_le_rank_loops hwf]
  simp only [not_verified_iff, and_or_left, exists_or]
  exact or_right_comm.trans or_assoc

/-- A byte that a record shares with the run is exposed or in a record that fits. -/
lemma overlapped_iff :
    R.Overlapped recs ↔ (∃ r ∈ recs, R.Fits r) ∨ R.Exposed recs := by
  constructor
  · rintro ⟨r, hr, hv, x, hc, hlo, hhi⟩
    by_cases h : ∃ r' ∈ recs, R.Fits r'
    · exact .inl h
    · exact .inr ⟨r, hr, hv, x, hc, hlo, hhi, fun r' hr' hf => absurd ⟨r', hr', hf⟩ h⟩
  · rintro (⟨r, hr, hv, hlo, hhi⟩ | ⟨r, hr, hv, x, hc, hlo, hhi, -⟩)
    · have hpos := hv.pos
      exact ⟨r, hr, hv, r.offset.toNat, ⟨Nat.le_refl _, by omega⟩, hlo, by omega⟩
    · exact ⟨r, hr, hv, x, hc, hlo, hhi⟩

lemma two_le_rank_loops (hwf : R.Wf) :
    2 ≤ (R.loops mem recs).verdict.rank ↔ R.Overlapped recs := by
  simp [le_rank_loops hwf, two_le_rank_recordVerdict, overlapped_iff]

/-- The lines of the earlier format count only where the loops find no record. -/
lemma check_verdict_eq {legacy : Bool} {b : AcBl} (hb : 2 ≤ b.rank) :
    (R.check mem recs legacy).verdict = b ↔ (R.loops mem recs).verdict = b := by
  unfold check
  by_cases h : (R.loops mem recs).verdict = .unbaselined
  · cases legacy <;> simp only [h, decide_true, Bool.and_false, Bool.and_true, Bool.false_eq_true,
      if_false, if_true]
    constructor <;> rintro rfl <;> exact absurd hb (by decide)
  · simp [h]

/-- `baseline_check_run` returns `AC_BL_MISMATCH` exactly when a record that fits is readable and
has another digest; otherwise `AC_BL_PARTIAL` exactly when a byte is covered by a record that
reaches out of the run and by none inside it; otherwise `AC_BL_HASH_FAILED` exactly when a record
that fits cannot be read; otherwise `AC_BL_OK` exactly when a record overlaps the run, and then
every byte of the run that a record covers is in one that fits and is verified. -/
theorem check_verdict_iff (hwf : R.Wf) (legacy : Bool) :
    ((R.check mem recs legacy).verdict = .mismatch ↔ R.Differs mem recs) ∧
    (¬ R.Differs mem recs →
      ((R.check mem recs legacy).verdict = .partly ↔ R.Exposed recs)) ∧
    (¬ R.Differs mem recs → ¬ R.Exposed recs →
      ((R.check mem recs legacy).verdict = .hashFailed ↔ R.Unread mem recs)) ∧
    (¬ R.Differs mem recs → ¬ R.Exposed recs → ¬ R.Unread mem recs →
      ((R.check mem recs legacy).verdict = .ok ↔ R.Overlapped recs)) ∧
    ((R.check mem recs legacy).verdict = .ok → ∀ x, R.lo ≤ x → x < R.hi →
      ∀ r ∈ recs, R.Valid r → Covers r x →
        ∃ r' ∈ recs, R.Fits r' ∧ Covers r' x ∧ R.Verified mem r') := by
  have heq : ∀ b : AcBl, 2 ≤ b.rank → ((R.check mem recs legacy).verdict = b ↔
      b.rank ≤ (R.loops mem recs).verdict.rank ∧ ¬ b.rank + 1 ≤ (R.loops mem recs).verdict.rank) :=
    fun b hb => (check_verdict_eq hb).trans (AcBl.eq_iff_rank _ b)
  have hok : (R.check mem recs legacy).verdict = .ok ↔ R.Overlapped recs ∧
      ¬ (R.Differs mem recs ∨ R.Exposed recs ∨ R.Unread mem recs) := by
    rw [heq _ (by decide), ← two_le_rank_loops hwf, ← three_le_rank_loops_iff hwf]
    rfl
  refine ⟨?_, fun hd => ?_, fun hd he => ?_, fun hd he hu => ?_, fun h x hlo hhi r hr hv hc => ?_⟩
  · rw [heq _ (by decide), ← five_le_rank_loops hwf]
    exact and_iff_left (AcBl.not_six_le_rank _)
  · rw [heq _ (by decide)]
    exact (and_congr (four_le_rank_loops hwf) (not_congr (five_le_rank_loops hwf))).trans
      (by simp [hd])
  · rw [heq _ (by decide)]
    exact (and_congr (three_le_rank_loops_iff hwf) (not_congr (four_le_rank_loops hwf))).trans
      (by simp [hd, he])
  · simp [hok, hd, he, hu]
  · have hno := (hok.mp h).2
    by_contra hnone
    -- the byte is in a record that fits, and one that fits and is not verified is a finding
    refine hno (.inr (.inl ⟨r, hr, hv, x, hc, hlo, hhi, fun r' hr' hf hc' => ?_⟩))
    refine hnone ⟨r', hr', hf, hc', by_contra fun hnv => hno ?_⟩
    rw [← three_le_rank_loops_iff hwf, three_le_rank_loops hwf]
    exact .inl ⟨r', hr', hf, hnv⟩

/-- One page of a file. -/
def page : Run := ⟨⟨0x1000, 0x2000, 0, 7, []⟩, []⟩

/-- A record of two pages of the file. -/
def twoPages : AcBaselineRec := ⟨7, 0, 0x2000, []⟩

lemma page_wf : page.Wf := by
  refine ⟨chained_singleton _, fun v hv => ?_⟩
  rw [List.mem_singleton.mp hv]
  exact ⟨by decide, by decide⟩

/-- A record that reaches out of the page leaves its bytes without one that fits. -/
theorem check_verdict_page : page.Wf ∧ (page.check none [twoPages] true).verdict = .partly := by
  have hfit : ¬ page.Fits twoPages := fun h => absurd h.2.2 (by decide)
  refine ⟨page_wf, ((check_verdict_iff page_wf true).2.1 ?_).mpr ?_⟩
  · rintro ⟨r, hr, hf, -⟩
    exact hfit (List.mem_singleton.mp hr ▸ hf)
  · refine ⟨twoPages, by simp, ⟨rfl, by decide, by decide⟩, 0, ⟨by decide, by decide⟩, by decide,
      by decide, fun r hr hf => ?_⟩
    exact absurd (List.mem_singleton.mp hr ▸ hf) hfit

end Run

end Anticheat.Baseline
