import Anticheat.Baseline.Periodic
import Anticheat.Baseline.Save
import Mathlib.Data.List.GetD

/-!
# Saving and checking

`scan --hash --save` saves a record for each executable file-backed mapping, of at most
`AC_HASH_CAP` bytes; the check is made for each run, against the records of all mappings of the
file. On an unchanged process the run is found in order exactly when every byte that it shares with
the saved range of some mapping lies in a saved range inside the run.
-/

namespace Anticheat.Baseline

open Hash Transition

/-! ### Digests are words -/

lemma length_acSha256Hex (b : Bytes) : (acSha256Hex b).length = 64 := by
  simp [acSha256Hex, acSha256HexDigest, acSha256Final, be32Bytes]

lemma mem_acSha256Hex {b : Bytes} {c : UInt8} (hc : c ∈ acSha256Hex b) :
    CText.isspace c = false ∧ c ≠ 0 := by
  have hdigit : ∀ d : UInt8, d ∈ ([48, 49, 50, 51, 52, 53, 54, 55, 56, 57, 97, 98, 99, 100, 101,
      102] : Bytes) → CText.isspace d = false ∧ d ≠ 0 := by decide +kernel
  have hget : ∀ k < 16, ([48, 49, 50, 51, 52, 53, 54, 55, 56, 57, 97, 98, 99, 100, 101,
      102] : Bytes).getD k 0 ∈ ([48, 49, 50, 51, 52, 53, 54, 55, 56, 57, 97, 98, 99, 100, 101,
      102] : Bytes) := by decide
  simp only [acSha256Hex, acSha256HexDigest, List.mem_flatMap, List.mem_cons, List.not_mem_nil,
    or_false] at hc
  obtain ⟨a, -, hc⟩ := hc
  have hhigh : (a >>> 4).toNat < 16 := by
    have := a.toNat_lt
    simp only [UInt8.toNat_shiftRight, Nat.shiftRight_eq_div_pow]
    change a.toNat / 2 ^ 4 < 16
    omega
  have hlow : (a &&& 0xf).toNat < 16 := by
    rw [UInt8.toNat_and]
    exact Nat.and_lt_two_pow (n := 4) _ (by decide)
  rcases hc with rfl | rfl
  · exact hdigit _ (hget _ hhigh)
  · exact hdigit _ (hget _ hlow)

/-! ### Saving -/

/-- `baseline_save_record` when nothing else is going on: the file that it leaves, or none when the
file is full. -/
def baselineSaveRecord (file : Option Bytes) (save : Save) : Option Bytes :=
  let kept := others (baselineLoadRecords .none file).1 save
  if kept.length = acBaselineMaxRecords then none else some (render (kept ++ [save.1]))

/-- A call that nothing disturbs does this to the file. -/
lemma run_baselineSaveRecord {s : Sys} {i : ℕ} {save : Save} {file : Bytes}
    (hcall : s.calls i = none) (hlock : s.lock = none)
    (h : baselineSaveRecord s.file save = some file) :
    ∃ s', run step s [.call i save, .flock i, .load i .none, .write i, .rename i, .unlock i] =
      some s' ∧ s'.file = some file ∧ ∃ c, s'.calls i = some c ∧ c.phase = .returned 0 := by
  by_cases hfull :
      (others (baselineLoadRecords .none s.file).1 save).length = acBaselineMaxRecords
  · simp [baselineSaveRecord, hfull] at h
  · have hfile : render (others (baselineLoadRecords .none s.file).1 save ++ [save.1]) = file := by
      simpa [baselineSaveRecord, hfull] using h
    simp [run, step, Sys.goto, Sys.release, hcall, hlock, hfull, hfile]

namespace AcBlVma

variable (v : AcBlVma)

/-- How much of a mapping is hashed and saved. -/
def savedSize : UInt64 := if acHashCap < v.len then acHashCap else v.len

/-- The end of the file range that is saved. -/
def savedHi : ℕ := v.lo + v.savedSize.toNat

/-- The key of the record of the mapping. -/
def saveKey : UInt64 × UInt64 × UInt64 := (v.inode, v.offset, v.savedSize)

/-- The address of a byte of the file in the mapping. -/
def addr (x : ℕ) : UInt64 := v.start + UInt64.ofNat (x - v.lo)

end AcBlVma

/-- The record that `scan --hash --save` saves for a mapping, if its memory can be read. -/
def savedRecord (mem : UInt64 → Option UInt8) (v : AcBlVma) : Option Save :=
  (readMem mem v.start v.savedSize.toNat).map fun b =>
    ⟨⟨v.inode, v.offset, v.savedSize, acSha256Hex b⟩,
      List.ne_nil_of_length_pos (by simp [length_acSha256Hex]),
      (length_acSha256Hex b).le, fun _ hc => mem_acSha256Hex hc⟩

/-- `scan --hash --save` over the mappings; none when one of them is not saved. -/
def scanSave (dir : Bytes) (mem : UInt64 → Option UInt8) : Files → List AcBlVma → Option Files
  | files, [] => some files
  | files, v :: vs => do
    let save ← savedRecord mem v
    let name := baselinePathFor dir v.path
    let file ← baselineSaveRecord (files name) save
    scanSave dir mem (Function.update files name (some file)) vs

/-! ### What the files hold after the scan -/

variable {dir : Bytes} {mem : UInt64 → Option UInt8} {v w : AcBlVma} {l vs : List AcBlVma}

/-- The mappings are saved to one file under one key. -/
def SameRecord (dir : Bytes) (v w : AcBlVma) : Prop :=
  baselinePathFor dir v.path = baselinePathFor dir w.path ∧ v.saveKey = w.saveKey

/-- The mapping is the last one of those that are saved to its file under its key. -/
def LastSaved (dir : Bytes) : List AcBlVma → AcBlVma → Prop
  | [], _ => False
  | v :: vs, w => LastSaved dir vs w ∨ w = v ∧ ∀ u ∈ vs, ¬ SameRecord dir v u

lemma LastSaved.mem_vmas (h : LastSaved dir vs w) : w ∈ vs := by
  induction vs with
  | nil => exact h.elim
  | cons v vs ih =>
    rcases h with h | ⟨rfl, -⟩
    · exact List.mem_cons_of_mem v (ih h)
    · exact List.mem_cons_self

lemma exists_lastSaved (hw : w ∈ vs) : ∃ u, LastSaved dir vs u ∧ SameRecord dir w u := by
  induction vs generalizing w with
  | nil => cases hw
  | cons v vs ih =>
    have htail : ∀ u ∈ vs, ∃ u', LastSaved dir (v :: vs) u' ∧ SameRecord dir u u' := by
      intro u hu
      obtain ⟨u', hlast, hsame⟩ := ih hu
      exact ⟨u', .inl hlast, hsame⟩
    rcases List.mem_cons.mp hw with rfl | hw
    · by_cases hno : ∀ u ∈ vs, ¬ SameRecord dir w u
      · exact ⟨w, .inr ⟨rfl, hno⟩, rfl, rfl⟩
      · push Not at hno
        obtain ⟨u, hu, hsame⟩ := hno
        obtain ⟨u', hlast, hsame'⟩ := htail u hu
        exact ⟨u', hlast, hsame.1.trans hsame'.1, hsame.2.trans hsame'.2⟩
    · exact htail w hw

/-- A mapping that is saved later takes the place of those with its record. -/
lemma lastSaved_concat :
    LastSaved dir (l ++ [v]) w ↔ w = v ∨ LastSaved dir l w ∧ ¬ SameRecord dir w v := by
  induction l with
  | nil => simp [LastSaved]
  | cons u l ih =>
    have hforall : (∀ u' ∈ l ++ [v], ¬ SameRecord dir u u') ↔
        (∀ u' ∈ l, ¬ SameRecord dir u u') ∧ ¬ SameRecord dir u v := by
      simp [or_imp, forall_and]
    rw [List.cons_append, LastSaved, LastSaved, ih, hforall]
    constructor
    · rintro ((rfl | ⟨hl, hv⟩) | ⟨rfl, hl, hv⟩)
      · exact .inl rfl
      · exact .inr ⟨.inl hl, hv⟩
      · exact .inr ⟨.inr ⟨rfl, hl⟩, hv⟩
    · rintro (rfl | ⟨hl | ⟨rfl, hl⟩, hv⟩)
      · exact .inl (.inl rfl)
      · exact .inl (.inr ⟨hl, hv⟩)
      · exact .inr ⟨rfl, hl, hv⟩

lemma savedSize_le (v : AcBlVma) : v.savedSize.toNat ≤ v.len.toNat := by
  unfold AcBlVma.savedSize
  split_ifs with h
  · exact Nat.le_of_lt (UInt64.lt_iff_toNat_lt.mp h)
  · exact Nat.le_refl _

lemma readMem_congr {start start' : UInt64} {size : ℕ}
    (h : ∀ k < size, mem (start + UInt64.ofNat k) = mem (start' + UInt64.ofNat k)) :
    readMem mem start size = readMem mem start' size := by
  unfold readMem
  induction size with
  | zero => rfl
  | succ size ih =>
    rw [List.range_succ, List.mapM_append, List.mapM_append,
      ih fun k hk => h k (Nat.lt_succ_of_lt hk)]
    simp [h size (Nat.lt_succ_self size)]

/-- The record of a mapping, in parts. -/
lemma savedRecord_eq_some {v : AcBlVma} {save : Save} : savedRecord mem v = some save ↔
    ∃ b, readMem mem v.start v.savedSize.toNat = some b ∧
      save.1 = ⟨v.inode, v.offset, v.savedSize, acSha256Hex b⟩ := by
  rw [savedRecord, Option.map_eq_some_iff]
  exact exists_congr fun b => and_congr_right fun _ => by
    rw [Subtype.ext_iff]
    exact eq_comm

lemma savedRecord_key {v : AcBlVma} {save : Save} (h : savedRecord mem v = some save) :
    save.1.key = v.saveKey := by
  obtain ⟨b, -, hb⟩ := savedRecord_eq_some.mp h
  rw [hb]
  rfl

/-- The files hold the records of the mappings in `l`, for each file and key the last. -/
def Holds (dir : Bytes) (mem : UInt64 → Option UInt8) (files : Files) (l : List AcBlVma) : Prop :=
  ∀ name, ∃ recs, baselineLoadRecords .none (files name) = (recs, false) ∧
    recs.length ≤ acBaselineMaxRecords ∧ (∀ r ∈ recs, r.Valid) ∧
    ∀ r, r ∈ recs ↔ ∃ w, LastSaved dir l w ∧ name = baselinePathFor dir w.path ∧
      ∃ save, savedRecord mem w = some save ∧ save.1 = r

lemma holds_nil : Holds dir mem (fun _ => none) [] := by
  intro name
  exact ⟨[], rfl, by decide, by simp, by simp [LastSaved]⟩

/-- What a save that has room for its record leaves in the file. -/
lemma load_baselineSaveRecord {file : Option Bytes} {recs : List AcBaselineRec} {save : Save}
    (hload : baselineLoadRecords .none file = (recs, false)) (hvalid : ∀ r ∈ recs, r.Valid)
    (hroom : (others recs save).length < acBaselineMaxRecords) :
    baselineSaveRecord file save = some (render (others recs save ++ [save.1])) ∧
      baselineLoadRecords .none (some (render (others recs save ++ [save.1]))) =
        (others recs save ++ [save.1], false) ∧
      ∀ r ∈ others recs save ++ [save.1], r.Valid := by
  have hvalid' : ∀ r ∈ others recs save ++ [save.1], r.Valid := by
    intro r hr
    rcases List.mem_append.mp hr with hr | hr
    · exact hvalid r (List.mem_of_mem_filter hr)
    · exact List.mem_singleton.mp hr ▸ save.2
  refine ⟨?_, baselineLoadRecords_render hvalid' (by simpa using hroom), hvalid'⟩
  rw [baselineSaveRecord, hload]
  exact if_neg hroom.ne

/-- One more mapping is saved. -/
lemma Holds.save {files : Files} {save : Save} {file : Bytes} (h : Holds dir mem files l)
    (hsave : savedRecord mem v = some save)
    (hfile : baselineSaveRecord (files (baselinePathFor dir v.path)) save = some file) :
    Holds dir mem (Function.update files (baselinePathFor dir v.path) (some file)) (l ++ [v]) := by
  intro name
  obtain ⟨recs, hload, hlen, hvalid, hmem⟩ := h name
  rcases eq_or_ne name (baselinePathFor dir v.path) with rfl | hne
  · have hle : (others recs save).length ≤ recs.length := List.length_filter_le _ _
    have hne : (others recs save).length ≠ acBaselineMaxRecords := by
      rintro heq
      simp [baselineSaveRecord, hload, heq] at hfile
    have hroom : (others recs save).length < acBaselineMaxRecords := by omega
    obtain ⟨hsaved, hload', hvalid'⟩ := load_baselineSaveRecord hload hvalid hroom
    cases hsaved.symm.trans hfile
    refine ⟨others recs save ++ [save.1], ?_, by simpa using hroom, hvalid', fun r => ?_⟩
    · rw [Function.update_self, hload']
    · simp only [List.mem_append, List.mem_singleton, others, List.mem_filter, hmem,
        decide_eq_true_eq, lastSaved_concat]
      constructor
      · rintro (⟨⟨w, hw, hwname, save', hsave', rfl⟩, hkey⟩ | rfl)
        · rw [savedRecord_key hsave', savedRecord_key hsave] at hkey
          exact ⟨w, .inr ⟨hw, fun hsame => hkey hsame.2⟩, hwname, save', hsave', rfl⟩
        · exact ⟨v, .inl rfl, rfl, save, hsave, rfl⟩
      · rintro ⟨w, rfl | ⟨hw, hsame⟩, hwname, save', hsave', rfl⟩
        · rw [hsave, Option.some.injEq] at hsave'
          exact .inr (by rw [hsave'])
        · refine .inl ⟨⟨w, hw, hwname, save', hsave', rfl⟩, fun hkey => hsame ⟨hwname.symm, ?_⟩⟩
          rwa [savedRecord_key hsave', savedRecord_key hsave] at hkey
  · refine ⟨recs, by rw [Function.update_of_ne hne, hload], hlen, hvalid, fun r => ?_⟩
    rw [hmem]
    refine exists_congr fun w => ?_
    rw [lastSaved_concat]
    constructor
    · rintro ⟨hw, hwname, hr⟩
      exact ⟨.inr ⟨hw, fun hsame => hne (hwname.trans hsame.1)⟩, hwname, hr⟩
    · rintro ⟨rfl | ⟨hw, -⟩, hwname, hr⟩
      · exact absurd hwname hne
      · exact ⟨hw, hwname, hr⟩

/-- The scan saves the records of all mappings. -/
lemma Holds.scanSave {files files' : Files} (h : Holds dir mem files l)
    (hscan : scanSave dir mem files vs = some files') : Holds dir mem files' (l ++ vs) := by
  induction vs generalizing files l with
  | nil =>
    cases hscan
    rwa [List.append_nil]
  | cons v vs ih =>
    simp only [Baseline.scanSave, Option.bind_eq_bind, Option.bind_eq_some_iff] at hscan
    obtain ⟨save, hsave, file, hfile, hrest⟩ := hscan
    simpa using ih (h.save hsave hfile) hrest

/-! ### Checking what was saved -/

/-- Mappings of one file have the same memory at the same file offset. -/
def Coherent (mem : UInt64 → Option UInt8) (vs : List AcBlVma) : Prop :=
  ∀ v ∈ vs, ∀ w ∈ vs, v.path = w.path → v.inode = w.inode →
    ∀ x, v.lo ≤ x → x < v.hi → w.lo ≤ x → x < w.hi → mem (v.addr x) = mem (w.addr x)

/-- The memory of a record at its place in a run is that of the mapping it was saved for. -/
lemma readMem_run {vs : List AcBlVma} (hco : Coherent mem vs) {R : Run} (hwf : R.Wf)
    (hR : ∀ v ∈ R.vmas, v ∈ vs) {w : AcBlVma} (hw : w ∈ vs) (hpath : w.path = R.first.path)
    (hinode : w.inode = R.first.inode) (hlo : R.lo ≤ w.lo) (hhi : w.savedHi ≤ R.hi) :
    readMem mem (R.first.start + (w.offset - R.rs)) w.savedSize.toNat =
      readMem mem w.start w.savedSize.toNat := by
  refine readMem_congr fun k hk => ?_
  have hsize := savedSize_le w
  unfold AcBlVma.savedHi at hhi
  obtain ⟨v, hv, hvlo, hvhi⟩ := hwf.exists_vma (x := w.lo + k) (by omega) (by omega)
  obtain ⟨-, -, hdist⟩ := hwf.mem_range hv
  obtain ⟨hvinode, hvpath⟩ := hwf.chained.file hv
  have hmem := hco v (hR v hv) w hw (hvpath.trans hpath.symm) (hvinode.trans hinode.symm)
    (w.lo + k) hvlo hvhi (by omega) (by unfold AcBlVma.hi AcBlVma.lo; omega)
  have haddr : v.addr (w.lo + k) = R.first.start + (w.offset - R.rs) + UInt64.ofNat k := by
    have hsub : UInt64.ofNat (w.lo + k - v.lo) = w.offset + UInt64.ofNat k - v.offset := by
      rw [UInt64.ofNat_sub hvlo, UInt64.ofNat_add, AcBlVma.lo, AcBlVma.lo, UInt64.ofNat_toNat,
        UInt64.ofNat_toNat]
    rw [AcBlVma.addr, hsub, Run.rs]
    grind
  have haddr' : w.addr (w.lo + k) = w.start + UInt64.ofNat k := by simp [AcBlVma.addr]
  rw [haddr, haddr'] at hmem
  exact hmem

/-- The record of the mapping is compared with the run: it is in the run's baseline file, with the
inode of the run. -/
def Compared (dir : Bytes) (R : Run) (w : AcBlVma) : Prop :=
  baselinePathFor dir R.first.path = baselinePathFor dir w.path ∧ w.inode = R.first.inode

/-- The saved range of the mapping is inside the file range of the run. -/
def SavedInside (R : Run) (w : AcBlVma) : Prop := R.lo ≤ w.lo ∧ w.savedHi ≤ R.hi

/-- The bytes that the run shares with saved ranges are all in saved ranges inside it. -/
def SharedSaved (dir : Bytes) (vs : List AcBlVma) (R : Run) : Prop :=
  ∀ w ∈ vs, Compared dir R w → ∀ x, w.lo ≤ x → x < w.savedHi → R.lo ≤ x → x < R.hi →
    ∃ u ∈ vs, Compared dir R u ∧ SavedInside R u ∧ u.lo ≤ x ∧ x < u.savedHi

/-- Where a mapping of another path was saved to the baseline file of the run, with the inode of the
run and inside it, the memory of the two has the same hash. -/
def NoClash (dir : Bytes) (mem : UInt64 → Option UInt8) (vs : List AcBlVma) (R : Run) : Prop :=
  ∀ w, LastSaved dir vs w → Compared dir R w → w.path ≠ R.first.path → SavedInside R w →
    hashProcMem mem (R.first.start + (w.offset - R.rs)) w.savedSize =
      hashProcMem mem w.start w.savedSize

section Check

variable {files : Files} {R : Run} {recs : List AcBaselineRec} {r : AcBaselineRec}

/-- The saved range of a mapping is a range. -/
lemma savedRecord_valid (hwf : w.Wf) {save : Save}
    (hsave : savedRecord mem w = some save) (hinode : w.inode = R.first.inode) :
    R.Valid save.1 ∧ (R.Inside save.1 ↔ SavedInside R w) ∧
      ∀ x, Run.Covers save.1 x ↔ w.lo ≤ x ∧ x < w.savedHi := by
  obtain ⟨b, -, hb⟩ := savedRecord_eq_some.mp hsave
  have hle := savedSize_le w
  have hrange := hwf.range
  have hpos : 0 < w.savedSize.toNat := by
    have := hwf.pos
    unfold AcBlVma.savedSize
    split_ifs
    · decide
    · exact this
  rw [hb]
  refine ⟨⟨hinode, ?_, ?_⟩, Iff.rfl, fun x => Iff.rfl⟩
  · intro h0
    simp only at h0
    rw [h0] at hpos
    exact absurd hpos (by decide)
  · unfold AcBlVma.hi at hrange
    simp only
    omega

/-- The mappings of a process after a scan that saved them all. -/
structure Scanned (dir : Bytes) (mem : UInt64 → Option UInt8) (files : Files)
    (vs : List AcBlVma) : Prop where
  wf : ∀ v ∈ vs, v.Wf
  coherent : Coherent mem vs
  readable : ∀ v ∈ vs, (savedRecord mem v).isSome = true
  holds : Holds dir mem files vs

/-- The records are those that the scan left in the baseline file of the run. -/
def LeftBy (dir : Bytes) (mem : UInt64 → Option UInt8) (vs : List AcBlVma) (R : Run)
    (recs : List AcBaselineRec) : Prop :=
  ∀ r, r ∈ recs ↔ ∃ w, LastSaved dir vs w ∧
    baselinePathFor dir R.first.path = baselinePathFor dir w.path ∧
    ∃ save, savedRecord mem w = some save ∧ save.1 = r

namespace Scanned

lemma run_wf (h : Scanned dir mem files vs) (hR : R ∈ baselineRuns vs) : R.Wf :=
  ⟨chained_baselineRuns hR, fun v hv => h.wf v (mem_vmas_of_mem_baselineRuns hR hv)⟩

lemma records (h : Scanned dir mem files vs) (R : Run) :
    ∃ recs, baselineCheckRun files dir (some mem) R = R.check (some mem) recs false ∧
      LeftBy dir mem vs R recs := by
  obtain ⟨recs, hload, -, -, hmem⟩ := h.holds (baselinePathFor dir R.first.path)
  have hrecs : Baseline.records files dir R = (recs, false) := hload
  exact ⟨recs, by rw [baselineCheckRun, hrecs], hmem⟩

/-- What a record of the run says about the mapping that it was saved for. -/
lemma record_cases (h : Scanned dir mem files vs) (hleft : LeftBy dir mem vs R recs)
    (hr : r ∈ recs) (hv : R.Valid r) :
    ∃ w, LastSaved dir vs w ∧ Compared dir R w ∧
      (∃ b, readMem mem w.start w.savedSize.toNat = some b ∧
        r = ⟨w.inode, w.offset, w.savedSize, acSha256Hex b⟩) ∧
      (R.Inside r ↔ SavedInside R w) ∧ ∀ x, Run.Covers r x ↔ w.lo ≤ x ∧ x < w.savedHi := by
  obtain ⟨w, hw, hname, save, hsave, rfl⟩ := (hleft r).mp hr
  obtain ⟨b, hb, hrec⟩ := savedRecord_eq_some.mp hsave
  have hinode : w.inode = R.first.inode := by
    have := hv.1
    rwa [hrec] at this
  obtain ⟨-, hin, hc⟩ := savedRecord_valid (R := R) (h.wf w hw.mem_vmas) hsave hinode
  exact ⟨w, hw, ⟨hname, hinode⟩, ⟨b, hb, hrec⟩, hin, hc⟩

/-- Every mapping that is compared with the run has a record with its range. -/
lemma exists_record (h : Scanned dir mem files vs) (hleft : LeftBy dir mem vs R recs)
    (hw : w ∈ vs) (hcmp : Compared dir R w) :
    ∃ r ∈ recs, R.Valid r ∧ (R.Inside r ↔ SavedInside R w) ∧
      ∀ x, Run.Covers r x ↔ w.lo ≤ x ∧ x < w.savedHi := by
  obtain ⟨u, hlast, hname, hkey⟩ := (exists_lastSaved hw : ∃ u, LastSaved dir vs u ∧ _)
  simp only [AcBlVma.saveKey, Prod.mk.injEq] at hkey
  obtain ⟨hinode, hoff, hsize⟩ := hkey
  obtain ⟨save, hsave⟩ := Option.isSome_iff_exists.mp (h.readable u hlast.mem_vmas)
  have hmem : save.1 ∈ recs := (hleft _).mpr ⟨u, hlast, hcmp.1.trans hname, save, hsave, rfl⟩
  obtain ⟨hv, hin, hc⟩ :=
    savedRecord_valid (h.wf u hlast.mem_vmas) hsave (hinode.symm.trans hcmp.2)
  refine ⟨save.1, hmem, hv, ?_⟩
  simpa [SavedInside, AcBlVma.savedHi, AcBlVma.lo, hoff, hsize] using ⟨hin, hc⟩

/-- The records that fit are verified when nothing clashes: a mapping of the run's own path has the
memory of the run. -/
lemma verified_iff (h : Scanned dir mem files vs) (hR : R ∈ baselineRuns vs)
    (hleft : LeftBy dir mem vs R recs) :
    (∀ r ∈ recs, R.Fits r → R.Verified (some mem) r) ↔ NoClash dir mem vs R := by
  constructor
  · intro hall w hlast hcmp _ hin
    obtain ⟨save, hsave⟩ := Option.isSome_iff_exists.mp (h.readable w hlast.mem_vmas)
    obtain ⟨b, hb, hrec⟩ := savedRecord_eq_some.mp hsave
    obtain ⟨hv, hin', -⟩ := savedRecord_valid (R := R) (h.wf w hlast.mem_vmas) hsave hcmp.2
    have hver := hall save.1 ((hleft _).mpr ⟨w, hlast, hcmp.1, save, hsave, rfl⟩)
      ⟨hv, hin'.mpr hin⟩
    rw [Run.Verified, Run.digest, Option.bind_some, hrec] at hver
    rw [hver, hashProcMem, hb]
    rfl
  · intro hclash r hr hf
    obtain ⟨w, hlast, hcmp, ⟨b, hb, rfl⟩, hin, -⟩ := h.record_cases hleft hr hf.1
    have hinside := hin.mp hf.2
    have hrun : hashProcMem mem (R.first.start + (w.offset - R.rs)) w.savedSize =
        hashProcMem mem w.start w.savedSize := by
      by_cases hpath : w.path = R.first.path
      · rw [hashProcMem, readMem_run h.coherent (h.run_wf hR)
          (fun v hv => mem_vmas_of_mem_baselineRuns hR hv) hlast.mem_vmas hpath hcmp.2 hinside.1
          hinside.2, hashProcMem]
      · exact hclash w hlast hcmp hpath hinside
    rw [Run.Verified, Run.digest, Option.bind_some, hrun, hashProcMem, hb]
    rfl

/-- The bytes that are exposed are those outside of the saved ranges inside the run. -/
lemma exposed_iff (h : Scanned dir mem files vs) (hleft : LeftBy dir mem vs R recs) :
    ¬ R.Exposed recs ↔ SharedSaved dir vs R := by
  constructor
  · intro hex w hw hcmp x hlo hhi hRlo hRhi
    obtain ⟨r, hr, hv, -, hc⟩ := h.exists_record hleft hw hcmp
    by_contra hno
    refine hex ⟨r, hr, hv, x, (hc x).mpr ⟨hlo, hhi⟩, hRlo, hRhi, fun r' hr' hf' hc' => hno ?_⟩
    obtain ⟨u, hu, hucmp, -, hin, hcu⟩ := h.record_cases hleft hr' hf'.1
    exact ⟨u, hu.mem_vmas, hucmp, hin.mp hf'.2, (hcu x).mp hc'⟩
  · rintro hshared ⟨r, hr, hv, x, hc, hRlo, hRhi, hno⟩
    obtain ⟨w, hw, hcmp, -, -, hcw⟩ := h.record_cases hleft hr hv
    obtain ⟨hlo, hhi⟩ := (hcw x).mp hc
    obtain ⟨u, hu, hucmp, hin, hux⟩ := hshared w hw.mem_vmas hcmp x hlo hhi hRlo hRhi
    obtain ⟨r', hr', hv', hin', hc'⟩ := h.exists_record hleft hu hucmp
    exact hno r' hr' ⟨hv', hin'.mpr hin⟩ ((hc' x).mpr hux)

/-- The record of the first mapping of the run fits. -/
lemma exists_fits (h : Scanned dir mem files vs) (hR : R ∈ baselineRuns vs)
    (hleft : LeftBy dir mem vs R recs) : ∃ r ∈ recs, R.Fits r := by
  have hfirst : R.first ∈ vs := mem_vmas_of_mem_baselineRuns hR List.mem_cons_self
  obtain ⟨r, hr, hv, hin, -⟩ := h.exists_record hleft hfirst ⟨rfl, rfl⟩
  have hrange := ((h.run_wf hR).mem_range (v := R.first) List.mem_cons_self).2.1
  have hsize := savedSize_le R.first
  refine ⟨r, hr, hv, hin.mpr ⟨Nat.le_refl _, ?_⟩⟩
  unfold AcBlVma.hi at hrange
  unfold AcBlVma.savedHi AcBlVma.lo
  omega

/-- The check finds a run in order exactly when the bytes that it shares with saved ranges are in
saved ranges inside it and nothing clashes. -/
lemma verdict_eq_ok_iff (h : Scanned dir mem files vs) (hR : R ∈ baselineRuns vs) :
    (baselineCheckRun files dir (some mem) R).verdict = .ok ↔
      SharedSaved dir vs R ∧ NoClash dir mem vs R := by
  obtain ⟨recs, hcheck, hleft⟩ := h.records R
  rw [hcheck, Run.check_eq_ok_iff (h.run_wf hR), h.verified_iff hR hleft, h.exposed_iff hleft]
  exact ⟨fun hok => ⟨hok.2.2, hok.2.1⟩, fun hok => ⟨h.exists_fits hR hleft, hok.2, hok.1⟩⟩

/-- When nothing clashes, the only wrong verdict is `AC_BL_PARTIAL`. -/
lemma verdict_eq_partly (h : Scanned dir mem files vs) (hR : R ∈ baselineRuns vs)
    (hclash : NoClash dir mem vs R) (hshared : ¬ SharedSaved dir vs R) :
    (baselineCheckRun files dir (some mem) R).verdict = .partly := by
  obtain ⟨recs, hcheck, hleft⟩ := h.records R
  rw [hcheck]
  exact Run.check_eq_partly (h.run_wf hR) ((h.verified_iff hR hleft).mpr hclash)
    (not_not.mp fun hno => hshared ((h.exposed_iff hleft).mp hno))

end Scanned

end Check

lemma readable_of_scanSave {files files' : Files}
    (h : scanSave dir mem files vs = some files') :
    ∀ v ∈ vs, (savedRecord mem v).isSome = true := by
  induction vs generalizing files with
  | nil => exact fun v hv => nomatch hv
  | cons v vs ih =>
    simp only [scanSave, Option.bind_eq_bind, Option.bind_eq_some_iff] at h
    obtain ⟨save, hsave, file, -, hrest⟩ := h
    exact List.forall_mem_cons.mpr ⟨by rw [hsave]; rfl, ih hrest⟩

/-- The mappings that a scan of the process meets. -/
def Proc.scanned (p : Proc) : List AcBlVma := execVmas p.pathbuf (p.vmas.take acMaxVmas)

lemma scanned_of_scanSave {p : Proc} {files : Files} (hco : Coherent mem p.scanned)
    (hsave : scanSave dir mem (fun _ => none) p.scanned = some files) :
    Scanned dir mem files p.scanned where
  wf := fun _ hv => wf_of_mem_execVmas hv
  coherent := hco
  readable := readable_of_scanSave hsave
  holds := by simpa using holds_nil.scanSave hsave

/-- For a process whose executable file-backed mappings agree on the memory of a file: after a scan
has saved all of them to an empty directory, the check finds every run in order exactly when each
run has all bytes that it shares with a saved range in saved ranges inside it, and no mapping of
another path was saved in its place. -/
theorem scanSave_check_ok_iff (dir : Bytes) (p : Proc) (mem : UInt64 → Option UInt8)
    (files : Files) (hmem : p.mem = some mem) (hco : Coherent mem p.scanned)
    (hsave : scanSave dir mem (fun _ => none) p.scanned = some files) :
    (∀ R ∈ p.runs, (baselineCheckRun files dir p.mem R).verdict = .ok) ↔
      ∀ R ∈ p.runs, SharedSaved dir p.scanned R ∧ NoClash dir mem p.scanned R := by
  have hscanned := scanned_of_scanSave hco hsave
  rw [hmem]
  exact forall₂_congr fun R hR => hscanned.verdict_eq_ok_iff hR

/-! ### A library in pieces, and two overlapping mappings of a large file -/

/-- An executable mapping of one file. -/
def libVma (start stop pgoff : UInt64) (lt : start < stop)
    (range : (pgoff <<< 12).toNat + (stop - start).toNat < 2 ^ 64) : Vma :=
  ⟨start, stop, pgoff, true, some ⟨7, [47, 97]⟩, lt, range⟩

def zeroMem : UInt64 → Option UInt8 := fun _ => some 0

lemma readMem_isSome {start : UInt64} {size : ℕ} : (readMem zeroMem start size).isSome = true := by
  unfold readMem
  induction size with
  | zero => rfl
  | succ size ih =>
    obtain ⟨b, hb⟩ := Option.isSome_iff_exists.mp ih
    rw [List.range_succ, List.mapM_append, hb]
    rfl

lemma exists_savedRecord (v : AcBlVma) : ∃ save, savedRecord zeroMem v = some save := by
  rw [← Option.isSome_iff_exists, savedRecord, Option.isSome_map]
  exact readMem_isSome

/-- As long as no file gets full all mappings are saved. -/
lemma exists_scanSave {files : Files} {k : ℕ} (hfew : ∀ name, ∃ recs,
    baselineLoadRecords .none (files name) = (recs, false) ∧ (∀ r ∈ recs, r.Valid) ∧
      recs.length ≤ k) (hk : k + vs.length ≤ acBaselineMaxRecords) :
    ∃ files', scanSave dir zeroMem files vs = some files' := by
  induction vs generalizing files k with
  | nil => exact ⟨files, rfl⟩
  | cons v vs ih =>
    rw [List.length_cons] at hk
    obtain ⟨save, hsave⟩ := exists_savedRecord v
    obtain ⟨recs, hload, hvalid, hlen⟩ := hfew (baselinePathFor dir v.path)
    have hle : (others recs save).length ≤ recs.length := List.length_filter_le _ _
    have hroom : (others recs save).length < acBaselineMaxRecords := by omega
    obtain ⟨hfile, hload', hvalid'⟩ := load_baselineSaveRecord hload hvalid hroom
    simp only [scanSave, Option.bind_eq_bind, hsave, Option.bind_some, hfile]
    refine ih (k := k + 1) (fun name => ?_) (by omega)
    rcases eq_or_ne name (baselinePathFor dir v.path) with rfl | hne
    · rw [Function.update_self]
      exact ⟨_, hload', hvalid', by rw [List.length_append, List.length_singleton]; omega⟩
    · obtain ⟨recs', h, h', hlen'⟩ := hfew name
      rw [Function.update_of_ne hne]
      exact ⟨recs', h, h', by omega⟩

lemma exists_scanSave_empty (hvs : vs.length ≤ acBaselineMaxRecords) :
    ∃ files, scanSave dir zeroMem (fun _ => none) vs = some files :=
  exists_scanSave (k := 0) (fun _ => ⟨[], rfl, by simp, le_rfl⟩) (by omega)

/-- Two mappings in a row, and a second one of a part of them. -/
def splitProc : Proc :=
  ⟨[libVma 0x10000000 0x10001000 0 (by decide) (by decide),
    libVma 0x10001000 0x10003000 1 (by decide) (by decide),
    libVma 0x20000000 0x20001000 1 (by decide) (by decide)], true, some zeroMem⟩

def headBl : AcBlVma := ⟨0x10000000, 0x10001000, 0, 7, [47, 97]⟩

def nextBl : AcBlVma := ⟨0x10001000, 0x10003000, 0x1000, 7, [47, 97]⟩

def copyBl : AcBlVma := ⟨0x20000000, 0x20001000, 0x1000, 7, [47, 97]⟩

theorem scanSave_check_ok_iff_split :
    ∃ files, scanSave [] zeroMem (fun _ => none) splitProc.scanned = some files ∧
      splitProc.runs = [⟨headBl, [nextBl]⟩, ⟨copyBl, []⟩] ∧
      ∀ R ∈ splitProc.runs, (baselineCheckRun files [] splitProc.mem R).verdict = .ok := by
  obtain ⟨files, hfiles⟩ : ∃ files,
    scanSave [] zeroMem (fun _ => none) splitProc.scanned = some files :=
    exists_scanSave_empty (by decide)
  refine ⟨files, hfiles, rfl, (scanSave_check_ok_iff [] splitProc zeroMem files rfl
    (fun _ _ _ _ _ _ _ _ _ _ _ => rfl) hfiles).mpr fun R hR => ?_⟩
  have hmem : ∀ w ∈ splitProc.scanned, w = headBl ∨ w = nextBl ∨ w = copyBl := by
    intro w hw
    simpa using (show w ∈ [headBl, nextBl, copyBl] from hw)
  have hpath : ∀ w ∈ splitProc.scanned, w.path = [47, 97] := by
    intro w hw
    rcases hmem w hw with rfl | rfl | rfl <;> rfl
  have hruns : R = ⟨headBl, [nextBl]⟩ ∨ R = ⟨copyBl, []⟩ := by
    simpa using (show R ∈ [⟨headBl, [nextBl]⟩, ⟨copyBl, []⟩] from hR)
  rcases hruns with rfl | rfl
  · refine ⟨fun w hw hcmp x hlo hhi _ _ => ⟨w, hw, hcmp, ?_, hlo, hhi⟩, fun w hlast _ hne => ?_⟩
    · rcases hmem w hw with rfl | rfl | rfl <;> exact ⟨by decide, by decide⟩
    · exact absurd (hpath w (LastSaved.mem_vmas hlast)) hne
  · refine ⟨fun w _ _ x _ _ hlo hhi => ?_, fun w hlast _ hne => ?_⟩
    · exact ⟨copyBl, by simp [show splitProc.scanned = [headBl, nextBl, copyBl] from rfl],
        ⟨rfl, rfl⟩, ⟨by decide, by decide⟩, hlo, hhi⟩
    · exact absurd (hpath w (LastSaved.mem_vmas hlast)) hne

/-- A mapping of the file up to twice `AC_HASH_CAP`, and one that starts inside this range and ends
after it. -/
def overlapProc : Proc :=
  ⟨[libVma 0x10000000 0x12000000 0 (by decide) (by decide),
    libVma 0x20000000 0x21000000 0x1800 (by decide) (by decide)], true, some zeroMem⟩

def wholeBl : AcBlVma := ⟨0x10000000, 0x12000000, 0, 7, [47, 97]⟩

def tailBl : AcBlVma := ⟨0x20000000, 0x21000000, 0x1800000, 7, [47, 97]⟩

/-- The tail of the large mapping is saved for the small one only, whose range is not inside it. -/
theorem scanSave_check_partly : Coherent zeroMem overlapProc.scanned ∧
    (∀ addr, (zeroMem addr).isSome = true) ∧ ∃ files,
      scanSave [] zeroMem (fun _ => none) overlapProc.scanned = some files ∧
      ∃ R ∈ overlapProc.runs,
        (baselineCheckRun files [] overlapProc.mem R).verdict = .partly := by
  have hco : Coherent zeroMem overlapProc.scanned := fun _ _ _ _ _ _ _ _ _ _ _ => rfl
  obtain ⟨files, hfiles⟩ : ∃ files,
    scanSave [] zeroMem (fun _ => none) overlapProc.scanned = some files :=
    exists_scanSave_empty (by decide)
  have hmem : ∀ w ∈ overlapProc.scanned, w = wholeBl ∨ w = tailBl := by
    intro w hw
    simpa using (show w ∈ [wholeBl, tailBl] from hw)
  have hR : ⟨wholeBl, []⟩ ∈ overlapProc.runs := List.mem_cons_self
  refine ⟨hco, fun _ => rfl, files, hfiles, ⟨wholeBl, []⟩, hR, ?_⟩
  refine (scanned_of_scanSave hco hfiles).verdict_eq_partly hR ?_ ?_
  · intro w hlast _ hpath
    rcases hmem w hlast.mem_vmas with rfl | rfl
    · exact absurd rfl hpath
    · exact absurd rfl hpath
  · intro hshared
    obtain ⟨u, hu, -, hin, -, hx⟩ := hshared tailBl (List.mem_cons_of_mem _ List.mem_cons_self)
      ⟨rfl, rfl⟩ 0x1800000 (by decide) (by decide) (by decide) (by decide)
    rcases hmem u hu with rfl | rfl
    · exact absurd hx (by decide)
    · exact absurd hin.2 (by decide)

end Anticheat.Baseline
