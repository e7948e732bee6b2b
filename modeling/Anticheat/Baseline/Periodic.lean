import Anticheat.Baseline.Check

/-!
# The periodic check of the baselines

One pass of `check_baselines_periodic`. It writes a line about a process exactly when there is a
finding about a run of the mappings in the snapshot, which holds at most `AC_MAX_VMAS` of them.
-/

namespace Anticheat.Baseline

open Hash

/-- A process as the check finds it. -/
structure Proc where
  vmas : List Vma
  /-- the kernel got its buffer for the paths -/
  pathbuf : Bool
  mem : ProcMem

/-- An item of `AC_IOCTL_LIST_PROTECTED` -/
structure ProtItem where
  pid : ℤ
  comm : String
  deriving DecidableEq, Repr

/-- A line of `logmsg` about a process. -/
structure BaselineLine where
  prio : LogPrio
  pid : ℤ
  text : String
  deriving DecidableEq, Repr

/-- A number as `%#llx` prints it. -/
def hashLlx (n : UInt64) : String := if n = 0 then "0" else "0x" ++ lx n

/-- The priority of the line for a verdict, if it is one to report. `cut` is whether the run is the
last one of an incomplete snapshot. -/
def verdictPrio (cut : Bool) : AcBl → Option LogPrio
  | .unbaselined => none
  | .ok => none
  | .legacy => some .warning
  | .hashFailed => some .warning
  | .partly => some (if cut then .warning else .crit)
  | .mismatch => some .crit

/-- What the line says after naming the process. -/
def verdictText (path : String) (cut : Bool) (res : AcBlRunResult) : String :=
  match res.verdict with
  | .unbaselined => ""
  | .ok => ""
  | .legacy => "legacy-format baseline for " ++ path ++
      " -- run \x60scan --hash --save\x60 to regenerate"
  | .hashFailed => "could not hash " ++ path ++
      " -- skipping baseline check for this segment this cycle"
  | .partly =>
    if cut then "VMA snapshot incomplete -- skipping baseline check for " ++ path ++ " this cycle"
    else "baselined range of " ++ path ++ " (file offset " ++ hashLlx res.off ++ ".." ++
      hashLlx (res.off + res.size) ++ ") is only partly mapped executable -- cannot verify it " ++
      "against the saved baseline (split and unmapped/remapped since --save; if the library " ++
      "was rebuilt in place, run \x60scan --hash --save\x60 to regenerate)"
  | .mismatch => "memory content of " ++ path ++
      " differs from saved baseline (possible runtime patching)" ++
      (if res.lenChanged then "; the mapping's size also changed since --save -- if the library " ++
        "was rebuilt in place, run \x60scan --hash --save\x60 to regenerate" else "")

/-- The line for the verdict on a run. -/
def verdictLine (item : ProtItem) (path : Bytes) (cut : Bool) (res : AcBlRunResult) :
    Option BaselineLine :=
  (verdictPrio cut res.verdict).map fun prio => ⟨prio, item.pid, "pid " ++ toString item.pid ++
    " (" ++ item.comm ++ "): " ++ verdictText (bytesText path) cut res⟩

/-- The body of `check_baselines_periodic` for one process. -/
def checkProc (files : Files) (dir : Bytes) (item : ProtItem) (p : Proc) : List BaselineLine :=
  let (infos, truncated) := acBuildVmaSnapshot p.pathbuf p.vmas
  let runs := baselineRuns (infos.filterMap AcVmaInfo.bl)
  runs.zipIdx.filterMap fun (R, k) =>
    verdictLine item R.first.path (truncated && k + 1 = runs.length)
      (baselineCheckRun files dir p.mem R)

/-- `check_baselines_periodic`, with all its `ioctl`s succeeding. -/
def checkBaselinesPeriodic (files : Files) (dir : Bytes) (items : List ProtItem)
    (procs : ℤ → Proc) : List BaselineLine :=
  items.flatMap fun item => checkProc files dir item (procs item.pid)

/-! ### The lines of a pass -/

lemma isSome_verdictLine (item : ProtItem) (path : Bytes) (cut : Bool) (res : AcBlRunResult) :
    (verdictLine item path cut res).isSome = true ↔
      res.verdict ≠ .unbaselined ∧ res.verdict ≠ .ok := by
  rw [verdictLine, Option.isSome_map]
  cases res.verdict <;> simp [verdictPrio]

/-- Every line is about the process, at `LOG_WARNING` or worse. -/
lemma verdictLine_eq_some {item : ProtItem} {path : Bytes} {cut : Bool} {res : AcBlRunResult}
    {l : BaselineLine} (h : verdictLine item path cut res = some l) :
    l.pid = item.pid ∧ l.prio ≠ .info := by
  obtain ⟨prio, hprio, rfl⟩ := Option.map_eq_some_iff.mp h
  refine ⟨rfl, ?_⟩
  rintro rfl
  revert hprio
  cases res.verdict <;> cases cut <;> simp [verdictPrio]

/-- The runs that a pass checks: those of the mappings in the snapshot. -/
def Proc.runs (p : Proc) : List Run :=
  baselineRuns (execVmas p.pathbuf (p.vmas.take acMaxVmas))

/-- There is a finding about the run. -/
def Proc.Finding (p : Proc) (files : Files) (dir : Bytes) (R : Run) : Prop :=
  R.Finding p.mem (records files dir R).1 (records files dir R).2

lemma exists_mem_checkProc {files : Files} {dir : Bytes} {item : ProtItem} {p : Proc} :
    (∃ l, l ∈ checkProc files dir item p) ↔ ∃ R ∈ p.runs, p.Finding files dir R := by
  have hloud : ∀ R ∈ p.runs, ∀ cut, (verdictLine item R.first.path cut
      (baselineCheckRun files dir p.mem R)).isSome = true ↔ p.Finding files dir R := by
    intro R hR cut
    rw [isSome_verdictLine]
    exact Run.check_loud_iff (wf_of_mem_baselineRuns hR) _
  simp only [checkProc, acBuildVmaSnapshot, List.mem_filterMap]
  constructor
  · rintro ⟨l, ⟨R, k⟩, hmem, hl⟩
    have hR : R ∈ p.runs := List.fst_mem_of_mem_zipIdx hmem
    exact ⟨R, hR, (hloud R hR _).mp (by rw [hl]; rfl)⟩
  · rintro ⟨R, hR, hf⟩
    obtain ⟨k, hk⟩ : ∃ k, (R, k) ∈ p.runs.zipIdx := by
      obtain ⟨k, hk⟩ := List.mem_iff_getElem?.mp hR
      exact ⟨k, List.mk_mem_zipIdx_iff_getElem?.mpr hk⟩
    obtain ⟨l, hl⟩ := Option.isSome_iff_exists.mp ((hloud R hR _).mpr hf)
    exact ⟨l, (R, k), hk, hl⟩

/-- The pass writes a line about the process at `LOG_WARNING` or worse. -/
def Warned (lines : List BaselineLine) (pid : ℤ) : Prop :=
  ∃ l ∈ lines, l.pid = pid ∧ l.prio ≠ .info

section Pass

variable {files : Files} {dir : Bytes} {items : List ProtItem} {procs : ℤ → Proc} {item : ProtItem}

/-- A pass warns about a process exactly when there is a finding about a run in its snapshot. -/
theorem warned_iff_finding (hitem : item ∈ items) :
    Warned (checkBaselinesPeriodic files dir items procs) item.pid ↔
      ∃ R ∈ (procs item.pid).runs, (procs item.pid).Finding files dir R := by
  have hline : ∀ item' l, l ∈ checkProc files dir item' (procs item'.pid) →
      l.pid = item'.pid ∧ l.prio ≠ .info := by
    intro item' l hl
    obtain ⟨x, -, hx⟩ := List.mem_filterMap.mp hl
    exact verdictLine_eq_some hx
  constructor
  · rintro ⟨l, hl, hpid, -⟩
    obtain ⟨item', -, hl⟩ := List.mem_flatMap.mp hl
    rw [← hpid, (hline item' l hl).1]
    exact exists_mem_checkProc.mp ⟨l, hl⟩
  · intro hf
    obtain ⟨l, hl⟩ : ∃ l, l ∈ checkProc files dir item (procs item.pid) :=
      exists_mem_checkProc.mpr hf
    exact ⟨l, List.mem_flatMap.mpr ⟨item, hitem, hl⟩, hline item l hl⟩

end Pass

/-- A byte of an executable file-backed mapping is covered by a record for its path and inode, but
by none that lies inside the run around it and is verified. The path is the one of the file, as far
as an entry has room for it, whether or not the check gets to see it. -/
def Proc.Tampered (p : Proc) (files : Files) (dir : Bytes) : Prop :=
  ∃ R ∈ baselineRuns (execVmas true p.vmas), ∃ v ∈ R.vmas, ∃ x, v.lo ≤ x ∧ x < v.hi ∧
    (∃ r ∈ (records files dir R).1, R.Valid r ∧ Run.Covers r x) ∧
    ∀ r ∈ (records files dir R).1, R.Valid r → Run.Covers r x → R.Inside r →
      ¬ R.Verified p.mem r

/-- Such a byte is a finding about its run. -/
lemma Proc.Tampered.finding {p : Proc} {files : Files} {dir : Bytes} (h : p.Tampered files dir) :
    ∃ R ∈ baselineRuns (execVmas true p.vmas), p.Finding files dir R := by
  obtain ⟨R, hR, v, hv, x, hlo, hhi, ⟨r, hr, hvalid, hc⟩, hno⟩ := h
  refine ⟨R, hR, ?_⟩
  by_cases hfit : ∃ r' ∈ (records files dir R).1, R.Fits r' ∧ Run.Covers r' x
  · obtain ⟨r', hr', hfit, hc'⟩ := hfit
    exact .inl ⟨r', hr', hfit, hno r' hr' hfit.1 hc' hfit.2⟩
  · obtain ⟨h1, h2, -⟩ := (wf_of_mem_baselineRuns hR).mem_range hv
    refine .inr (.inl ⟨r, hr, hvalid, x, hc, by omega, by omega, fun r' hr' hf hc' => ?_⟩)
    exact hfit ⟨r', hr', hf, hc'⟩

/-- For a protected process the pass warns whenever a byte is tampered with, exactly under this
condition: the snapshot holds all of its mappings with their paths, or no byte is, or there is a
finding about the mappings that it holds. -/
theorem tampered_warned_iff (files : Files) (dir : Bytes) (items : List ProtItem)
    (procs : ℤ → Proc) (item : ProtItem) (hitem : item ∈ items) :
    ((procs item.pid).Tampered files dir →
        Warned (checkBaselinesPeriodic files dir items procs) item.pid) ↔
      ((procs item.pid).vmas.length ≤ acMaxVmas ∧ (procs item.pid).pathbuf = true ∨
        ¬ (procs item.pid).Tampered files dir ∨
        ∃ R ∈ (procs item.pid).runs, (procs item.pid).Finding files dir R) := by
  rw [warned_iff_finding hitem]
  constructor
  · intro h
    by_cases ht : (procs item.pid).Tampered files dir
    · exact .inr (.inr (h ht))
    · exact .inr (.inl ht)
  · rintro (⟨hlen, hbuf⟩ | hno | hf) ht
    · have hruns : (procs item.pid).runs =
          baselineRuns (execVmas true (procs item.pid).vmas) := by
        rw [Proc.runs, hbuf, List.take_of_length_le hlen]
      rw [hruns]
      exact ht.finding
    · exact absurd ht hno
    · exact hf

/-! A process with one executable file-backed mapping, patched since its baseline was saved; then
the same process with as many small mappings before it as a snapshot holds. -/

/-- The record of the first sixteen bytes of the file, all zero. -/
def zeroRecord : AcBaselineRec := ⟨7, 0, 16, acSha256Hex (List.replicate 16 0)⟩

/-- A baseline directory with this record in every file. -/
def zeroFiles : Files := fun _ => some (render [zeroRecord])

def patchedVma : Vma where
  start := 0x7f0000000000
  stop := 0x7f0000001000
  pgoff := 0
  exec := true
  file := some ⟨7, [47, 97]⟩
  lt := by decide
  range := by decide

/-- A small mapping below it that is neither executable nor of a file. -/
def fillerVma (i : Fin 4096) : Vma where
  start := UInt64.ofNat (0x2000 * (i + 1))
  stop := UInt64.ofNat (0x2000 * (i + 1) + 0x1000)
  pgoff := 0
  exec := false
  file := none
  lt := by
    have hi := i.isLt
    rw [UInt64.lt_iff_toNat_lt, UInt64.toNat_ofNat', UInt64.toNat_ofNat']
    omega
  range := by
    rw [show ((0 : UInt64) <<< 12).toNat = 0 from rfl, Nat.zero_add]
    exact UInt64.toNat_lt _

/-- The process with the mappings `fillers` first; all its memory reads as patched. -/
def patchedProc (fillers : List Vma) : Proc :=
  ⟨fillers ++ [patchedVma], true, some fun _ => some 0x90⟩

/-- The run of the patched mapping. -/
def patchedRun : Run := ⟨⟨0x7f0000000000, 0x7f0000001000, 0, 7, [47, 97]⟩, []⟩

lemma records_patchedRun : records zeroFiles [] patchedRun = ([zeroRecord], false) := by
  decide +kernel

lemma digest_patchedRun :
    patchedRun.digest (some fun _ => some 0x90) zeroRecord ≠ some zeroRecord.hex := by
  decide +kernel

lemma tampered_patchedProc {fillers : List Vma} (h : execVmas true fillers = []) :
    (patchedProc fillers).Tampered zeroFiles [] := by
  have hexec : execVmas true (fillers ++ [patchedVma]) = patchedRun.vmas := by
    rw [execVmas, List.map_append, List.filterMap_append]
    exact (congrArg (· ++ _) h).trans rfl
  refine ⟨patchedRun, ?_, patchedRun.first, List.mem_cons_self, 0, by decide, by decide, ?_, ?_⟩
  · change patchedRun ∈ baselineRuns (execVmas true (fillers ++ [patchedVma]))
    rw [hexec]
    exact List.mem_singleton_self patchedRun
  · rw [records_patchedRun]
    exact ⟨zeroRecord, List.mem_singleton_self _, ⟨rfl, by decide, by decide⟩, by decide, by decide⟩
  · rw [records_patchedRun]
    intro r hr _ _ _
    rw [List.mem_singleton.mp hr]
    exact digest_patchedRun

theorem tampered_warned_iff_patched :
    Warned (checkBaselinesPeriodic zeroFiles [] [⟨1, "game"⟩] fun _ => patchedProc []) 1 :=
  (tampered_warned_iff zeroFiles [] [⟨1, "game"⟩] (fun _ => patchedProc []) ⟨1, "game"⟩
    (List.mem_singleton_self _)).mpr (.inl ⟨by decide, rfl⟩) (tampered_patchedProc rfl)

/-- The small mappings, as many as a snapshot holds. -/
def fillers : List Vma := (List.finRange 4096).map fillerVma

lemma execVmas_fillers : execVmas true fillers = [] := by
  rw [execVmas, fillers, List.filterMap_eq_nil_iff]
  intro vi hvi
  simp only [List.mem_map] at hvi
  obtain ⟨v, ⟨i, -, rfl⟩, rfl⟩ := hvi
  rfl

/-- The patched mapping is past the end of the snapshot, and the pass says nothing. -/
theorem tampered_unnoticed : (patchedProc fillers).Tampered zeroFiles [] ∧
    ¬ Warned
      (checkBaselinesPeriodic zeroFiles [] [⟨1, "game"⟩] fun _ => patchedProc fillers) 1 := by
  refine ⟨tampered_patchedProc execVmas_fillers, fun hwarned => ?_⟩
  have hitem : (⟨1, "game"⟩ : ProtItem) ∈ [(⟨1, "game"⟩ : ProtItem)] := List.mem_singleton_self _
  obtain ⟨R, hR, -⟩ := (warned_iff_finding hitem).mp hwarned
  have hruns : (patchedProc fillers).runs = [] := by
    change baselineRuns (execVmas true ((fillers ++ [patchedVma]).take acMaxVmas)) = []
    rw [List.take_left' (by simp [fillers, acMaxVmas]), execVmas_fillers]
    rfl
  rw [hruns] at hR
  cases hR

end Anticheat.Baseline
