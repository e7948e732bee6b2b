import Anticheat.Basic
import Anticheat.Hash.Sha256
import Mathlib.Data.List.Chain
import Mathlib.Data.List.Basic

/-!
# Mappings and their runs

The mappings of a process as the module's snapshot gives them, and the maximal runs of executable
file-backed mappings that `baseline_run_end` forms of them: adjacent in memory, of one file, with
contiguous file offsets.
-/

namespace Anticheat.Baseline

open Hash

/-- `AC_MAX_VMAS` -/
def acMaxVmas : ℕ := 4096

/-- `AC_VMA_PATH` -/
def acVmaPath : ℕ := 128

/-! ### The snapshot -/

/-- The file behind a mapping: its inode number and what `d_path` gives, nothing if it fails. -/
structure VmFile where
  inode : UInt64
  path : Bytes

/-- A `vm_area_struct`. The kernel makes no empty mapping, and none whose file range would pass
`2^64`. -/
structure Vma where
  start : UInt64
  stop : UInt64
  pgoff : UInt64
  exec : Bool
  file : Option VmFile
  lt : start < stop
  range : (pgoff <<< 12).toNat + (stop - start).toNat < 2 ^ 64

/-- `struct ac_vma_info` -/
structure AcVmaInfo where
  start : UInt64
  stop : UInt64
  offset : UInt64
  inode : UInt64
  exec : Bool
  isFile : Bool
  path : Bytes
  deriving DecidableEq, Repr

/-- The entry for a mapping; `pathbuf` is whether the buffer for the paths was allocated. -/
def Vma.info (pathbuf : Bool) (v : Vma) : AcVmaInfo where
  start := v.start
  stop := v.stop
  offset := v.pgoff <<< 12
  inode := (v.file.map VmFile.inode).getD 0
  exec := v.exec
  isFile := v.file.isSome
  path := if pathbuf then ((v.file.map VmFile.path).getD []).take (acVmaPath - 1) else []

/-- `ac_build_vma_snapshot`: the entries and `truncated`. -/
def acBuildVmaSnapshot (pathbuf : Bool) (vmas : List Vma) : List AcVmaInfo × Bool :=
  ((vmas.take acMaxVmas).map (Vma.info pathbuf), acMaxVmas < vmas.length)

/-- `struct ac_bl_vma` -/
structure AcBlVma where
  start : UInt64
  stop : UInt64
  offset : UInt64
  inode : UInt64
  path : Bytes
  deriving DecidableEq, Repr

/-- The entry of `g_bl_vmas` for an executable file-backed mapping. -/
def AcVmaInfo.bl (vi : AcVmaInfo) : Option AcBlVma :=
  if !vi.exec || !vi.isFile then none else some ⟨vi.start, vi.stop, vi.offset, vi.inode, vi.path⟩

/-- The executable file-backed mappings, in address order. -/
def execVmas (pathbuf : Bool) (vmas : List Vma) : List AcBlVma :=
  (vmas.map (Vma.info pathbuf)).filterMap AcVmaInfo.bl

/-! ### Runs -/

namespace AcBlVma

variable (v : AcBlVma)

def len : UInt64 := v.stop - v.start

/-- The file range of the mapping, as numbers: its first byte and the one past its last. -/
def lo : ℕ := v.offset.toNat

def hi : ℕ := v.offset.toNat + v.len.toNat

/-- The file range is not empty and does not wrap. -/
structure Wf : Prop where
  pos : 0 < v.len.toNat
  range : v.hi < 2 ^ 64

end AcBlVma

/-- The mappings `v[i]` to `v[j - 1]`, of which there is at least one. -/
structure Run where
  first : AcBlVma
  rest : List AcBlVma
  deriving DecidableEq, Repr

namespace Run

variable (R : Run)

def vmas : List AcBlVma := R.first :: R.rest

def last : AcBlVma := R.rest.getLastD R.first

/-- `rs` of `baseline_check_run` -/
def rs : UInt64 := R.first.offset

/-- `re` of `baseline_check_run` -/
def re : UInt64 := R.last.offset + R.last.len

end Run

/-- The condition of the loop in `baseline_run_end` for the mapping `v` after `prev`. -/
def continues (first prev v : AcBlVma) : Bool :=
  v.inode = first.inode && v.path = first.path && v.start = prev.stop &&
    v.offset = prev.offset + prev.len

/-- The run that begins with `first` and has come to the mappings in `done`, the last one first,
and the runs after it. -/
def runsFrom (first : AcBlVma) (done : List AcBlVma) : List AcBlVma → List Run
  | [] => [⟨first, done.reverse⟩]
  | v :: vs =>
    if continues first (done.headD first) v then runsFrom first (v :: done) vs
    else ⟨first, done.reverse⟩ :: runsFrom v [] vs

/-- The runs that the loop over `baseline_run_end` visits. -/
def baselineRuns : List AcBlVma → List Run
  | [] => []
  | v :: vs => runsFrom v [] vs

/-! ### What is in a run -/

lemma flatMap_runsFrom (first : AcBlVma) (done vs : List AcBlVma) :
    (runsFrom first done vs).flatMap Run.vmas = first :: done.reverse ++ vs := by
  induction vs generalizing first done with
  | nil => simp [runsFrom, Run.vmas]
  | cons v vs ih =>
    rw [runsFrom]
    split_ifs
    · rw [ih]
      simp
    · rw [List.flatMap_cons, ih]
      simp [Run.vmas]

/-- The runs are the mappings, in order. -/
lemma flatMap_baselineRuns (vs : List AcBlVma) : (baselineRuns vs).flatMap Run.vmas = vs := by
  cases vs with
  | nil => rfl
  | cons v vs => exact flatMap_runsFrom v [] vs

/-- Each mapping of the run continues the one before it. -/
def Run.Chained (R : Run) : Prop :=
  List.IsChain (fun p v => continues R.first p v = true) (R.first :: R.rest)

lemma chained_singleton (v : AcBlVma) : Run.Chained ⟨v, []⟩ := List.isChain_singleton v

lemma getLast?_cons_reverse {α : Type*} (a : α) (l : List α) :
    (a :: l.reverse).getLast? = some (l.headD a) := by
  cases l with
  | nil => rfl
  | cons b l => simp [List.getLast?_cons]

lemma chained_runsFrom {first : AcBlVma} {done vs : List AcBlVma}
    (hdone : Run.Chained ⟨first, done.reverse⟩) {R : Run} (hR : R ∈ runsFrom first done vs) :
    R.Chained := by
  induction vs generalizing first done with
  | nil =>
    rw [runsFrom, List.mem_singleton] at hR
    exact hR ▸ hdone
  | cons v vs ih =>
    rw [runsFrom] at hR
    split_ifs at hR with hc
    · refine ih ?_ hR
      unfold Run.Chained at hdone ⊢
      rw [List.reverse_cons, ← List.cons_append, List.isChain_append]
      refine ⟨hdone, List.isChain_singleton v, fun p hp w hw => ?_⟩
      rw [getLast?_cons_reverse, Option.mem_some_iff] at hp
      rw [List.head?_cons, Option.mem_some_iff] at hw
      exact hp ▸ hw ▸ hc
    · rcases List.mem_cons.mp hR with rfl | hR
      · exact hdone
      · exact ih (chained_singleton v) hR

lemma chained_baselineRuns {vs : List AcBlVma} {R : Run} (hR : R ∈ baselineRuns vs) :
    R.Chained := by
  cases vs with
  | nil => cases hR
  | cons v vs => exact chained_runsFrom (chained_singleton v) hR

lemma mem_vmas_of_mem_baselineRuns {vs : List AcBlVma} {R : Run} (hR : R ∈ baselineRuns vs)
    {v : AcBlVma} (hv : v ∈ R.vmas) : v ∈ vs := by
  rw [← flatMap_baselineRuns vs]
  exact List.mem_flatMap.mpr ⟨R, hR, hv⟩

/-! ### The file range of a run -/

namespace AcBlVma

variable {v w : AcBlVma}

/-- The mapping `w` follows `v` in memory and in the file. -/
structure Adjacent (v w : AcBlVma) : Prop where
  start : w.start = v.stop
  offset : w.offset = v.offset + v.len

lemma Adjacent.lo_eq (h : Adjacent v w) (hv : v.Wf) : w.lo = v.hi := by
  have hlt : v.offset.toNat + v.len.toNat < 2 ^ 64 := hv.range
  rw [lo, h.offset, UInt64.toNat_add, Nat.mod_eq_of_lt hlt, hi]

/-- Adjacent mappings have the same distance between address and file offset. -/
lemma Adjacent.start_sub_offset (h : Adjacent v w) :
    w.start - w.offset = v.start - v.offset := by
  rw [h.start, h.offset, len]
  grind

lemma Wf.lo_lt_hi (hv : v.Wf) : v.lo < v.hi := by
  have := hv.pos
  unfold lo hi
  omega

end AcBlVma

/-- In a chain of adjacent mappings the file ranges follow each other without a gap. -/
lemma range_of_isChain {v : AcBlVma} {l : List AcBlVma}
    (hchain : List.IsChain AcBlVma.Adjacent (v :: l)) (hwf : ∀ w ∈ v :: l, w.Wf) :
    (∀ w ∈ v :: l, v.lo ≤ w.lo ∧ w.hi ≤ (l.getLastD v).hi ∧
      w.start - w.offset = v.start - v.offset) ∧
    ∀ x, v.lo ≤ x → x < (l.getLastD v).hi → ∃ w ∈ v :: l, w.lo ≤ x ∧ x < w.hi := by
  induction l generalizing v with
  | nil =>
    refine ⟨fun w hw => ?_, fun x hlo hhi => ⟨v, List.mem_singleton_self v, hlo, hhi⟩⟩
    rw [List.mem_singleton.mp hw]
    exact ⟨Nat.le_refl _, Nat.le_refl _, rfl⟩
  | cons w l ih =>
    obtain ⟨hadj, hchain⟩ := List.isChain_cons_cons.mp hchain
    obtain ⟨hin, hcover⟩ := ih hchain fun u hu => hwf u (List.mem_cons_of_mem _ hu)
    have hv := hwf v List.mem_cons_self
    have hvw : w.lo = v.hi := hadj.lo_eq hv
    have hpos := hv.lo_lt_hi
    have hw := hin w List.mem_cons_self
    have hwpos := (hwf w (by simp)).lo_lt_hi
    rw [List.getLastD_cons]
    constructor
    · intro u hu
      rcases List.mem_cons.mp hu with rfl | hu
      · exact ⟨Nat.le_refl _, by omega, rfl⟩
      · obtain ⟨h1, h2, h3⟩ := hin u hu
        exact ⟨by omega, h2, h3.trans hadj.start_sub_offset⟩
    · intro x hlo hhi
      by_cases hx : x < v.hi
      · exact ⟨v, List.mem_cons_self, hlo, hx⟩
      · obtain ⟨u, hu, h⟩ := hcover x (by omega) hhi
        exact ⟨u, List.mem_cons_of_mem _ hu, h⟩

namespace Run

variable {R : Run}

lemma Chained.adjacent (h : R.Chained) :
    List.IsChain AcBlVma.Adjacent (R.first :: R.rest) := by
  refine List.IsChain.imp (fun p v hc => ?_) h
  simp only [continues, Bool.and_eq_true, decide_eq_true_eq] at hc
  exact ⟨hc.1.2, hc.2⟩

/-- The mappings of a run are of one file. -/
lemma Chained.file (h : R.Chained) {v : AcBlVma} (hv : v ∈ R.vmas) :
    v.inode = R.first.inode ∧ v.path = R.first.path := by
  have hrest : ∀ (l : List AcBlVma) (a : AcBlVma),
      List.IsChain (fun p v => continues R.first p v = true) (a :: l) →
        ∀ v ∈ l, v.inode = R.first.inode ∧ v.path = R.first.path := by
    intro l
    induction l with
    | nil => exact fun _ _ v hv => nomatch hv
    | cons w l ih =>
      intro a hchain
      obtain ⟨hw, hchain⟩ := List.isChain_cons_cons.mp hchain
      simp only [continues, Bool.and_eq_true, decide_eq_true_eq] at hw
      exact List.forall_mem_cons.mpr ⟨hw.1.1, ih w hchain⟩
  rcases List.mem_cons.mp hv with rfl | hv
  · exact ⟨rfl, rfl⟩
  · exact hrest R.rest R.first h v hv

/-- The file range of the run, as numbers. -/
def lo (R : Run) : ℕ := R.first.lo

def hi (R : Run) : ℕ := R.last.hi

/-- A run of mappings whose file ranges are not empty and do not wrap. -/
structure Wf (R : Run) : Prop where
  chained : R.Chained
  vmas : ∀ v ∈ R.vmas, v.Wf

lemma last_mem (R : Run) : R.last ∈ R.vmas := List.getLastD_mem_cons

lemma toNat_rs (R : Run) : R.rs.toNat = R.lo := rfl

lemma toNat_re (h : R.Wf) : R.re.toNat = R.hi := by
  have hlt : R.last.offset.toNat + R.last.len.toNat < 2 ^ 64 := (h.vmas R.last R.last_mem).range
  rw [re, UInt64.toNat_add, Nat.mod_eq_of_lt hlt]
  rfl

/-- A mapping of the run lies inside its range, at the same distance from the file. -/
lemma Wf.mem_range (h : R.Wf) {v : AcBlVma} (hv : v ∈ R.vmas) :
    R.lo ≤ v.lo ∧ v.hi ≤ R.hi ∧ v.start - v.offset = R.first.start - R.first.offset :=
  (range_of_isChain h.chained.adjacent h.vmas).1 v hv

/-- Every byte of the range is in a mapping. -/
lemma Wf.exists_vma (h : R.Wf) {x : ℕ} (hlo : R.lo ≤ x) (hhi : x < R.hi) :
    ∃ v ∈ R.vmas, v.lo ≤ x ∧ x < v.hi :=
  (range_of_isChain h.chained.adjacent h.vmas).2 x hlo hhi

lemma Wf.lo_lt_hi (h : R.Wf) : R.lo < R.hi := by
  have hfirst : R.first ∈ R.vmas := List.mem_cons_self
  have hin := h.mem_range hfirst
  have hpos := (h.vmas R.first hfirst).lo_lt_hi
  omega

end Run

/-! ### Mappings of the kernel -/

lemma wf_of_mem_execVmas {pathbuf : Bool} {vmas : List Vma} {v : AcBlVma}
    (hv : v ∈ execVmas pathbuf vmas) : v.Wf := by
  obtain ⟨vi, hvi, hbl⟩ := List.mem_filterMap.mp hv
  obtain ⟨k, -, rfl⟩ := List.mem_map.mp hvi
  unfold AcVmaInfo.bl at hbl
  split_ifs at hbl
  cases hbl
  refine ⟨?_, k.range⟩
  have hlt := UInt64.lt_iff_toNat_lt.mp k.lt
  have hle : k.start ≤ k.stop := UInt64.le_of_lt k.lt
  change 0 < (k.stop - k.start).toNat
  rw [UInt64.toNat_sub_of_le _ _ hle]
  omega

lemma wf_of_mem_baselineRuns {pathbuf : Bool} {vmas : List Vma} {R : Run}
    (hR : R ∈ baselineRuns (execVmas pathbuf vmas)) : R.Wf :=
  ⟨chained_baselineRuns hR, fun _ hv =>
    wf_of_mem_execVmas (mem_vmas_of_mem_baselineRuns hR hv)⟩

end Anticheat.Baseline
