import Anticheat.Baseline.Check

/-!
# Splitting mappings

A mapping that the kernel splits (after `mprotect` and back, for instance) shows up as several in
the next snapshot. The runs are made so that this does not matter: a list of mappings and one in
which some are split have the same runs, and every run has the same verdict.
-/

namespace Anticheat.Baseline

open Hash

namespace AcBlVma

variable {v w : AcBlVma} {p : UInt64}

/-- The part of the mapping below the address `p`. -/
def below (v : AcBlVma) (p : UInt64) : AcBlVma := { v with stop := p }

/-- The part of the mapping from the address `p` on. -/
def above (v : AcBlVma) (p : UInt64) : AcBlVma :=
  { v with start := p, offset := v.offset + (p - v.start) }

/-- The list has the parts of the mapping, split at some points inside it. -/
inductive Pieces : AcBlVma → List AcBlVma → Prop
  | whole (v : AcBlVma) : Pieces v [v]
  | split {v : AcBlVma} {p : UInt64} {ps : List AcBlVma} (hlo : v.start < p) (hhi : p < v.stop)
      (hps : Pieces (v.above p) ps) : Pieces v (v.below p :: ps)

/-- The second list is the first one with any number of its mappings split. -/
inductive Refines : List AcBlVma → List AcBlVma → Prop
  | nil : Refines [] []
  | cons {v : AcBlVma} {ps vs ws : List AcBlVma} (hps : Pieces v ps) (hvs : Refines vs ws) :
      Refines (v :: vs) (ps ++ ws)

/-- The mappings begin at the same place, in memory and in the same file. -/
structure SameHead (v w : AcBlVma) : Prop where
  start : v.start = w.start
  offset : v.offset = w.offset
  inode : v.inode = w.inode
  path : v.path = w.path

/-- The mappings end at the same place, in memory and in their files. -/
structure SameEnd (v w : AcBlVma) : Prop where
  stop : v.stop = w.stop
  offset : v.offset + v.len = w.offset + w.len

lemma SameHead.refl (v : AcBlVma) : SameHead v v := ⟨rfl, rfl, rfl, rfl⟩

lemma SameEnd.refl (v : AcBlVma) : SameEnd v v := ⟨rfl, rfl⟩

lemma sameHead_below (v : AcBlVma) (p : UInt64) : SameHead v (v.below p) := ⟨rfl, rfl, rfl, rfl⟩

lemma sameEnd_above (v : AcBlVma) (p : UInt64) : SameEnd v (v.above p) := by
  refine ⟨rfl, ?_⟩
  simp only [len, above]
  grind

lemma adjacent_below_above (v : AcBlVma) (p : UInt64) : Adjacent (v.below p) (v.above p) :=
  ⟨rfl, rfl⟩

lemma Pieces.exists_cons {ps : List AcBlVma} (h : Pieces v ps) :
    ∃ w rest, ps = w :: rest ∧ SameHead v w := by
  cases h with
  | whole => exact ⟨v, [], rfl, .refl v⟩
  | split => exact ⟨_, _, rfl, sameHead_below v _⟩

end AcBlVma

open AcBlVma

/-! ### The runs -/

/-- The runs have the same range, in memory and in the same file. -/
structure Run.SameRange (R S : Run) : Prop where
  first : SameHead R.first S.first
  last : SameEnd R.last S.last

variable {first first' prev prev' v w : AcBlVma} {done done' : List AcBlVma}

lemma continues_congr (hfirst : SameHead first first') (hprev : SameEnd prev prev')
    (hv : SameHead v w) : continues first prev v = continues first' prev' w := by
  unfold continues
  rw [hfirst.inode, hfirst.path, hprev.stop, hprev.offset, hv.start, hv.offset, hv.inode, hv.path]

/-- The rest of the pieces of a mapping go into the run that its first piece is in. -/
lemma runsFrom_pieces {ps : List AcBlVma} (hps : Pieces v (w :: ps))
    (hinode : v.inode = first.inode) (hpath : v.path = first.path)
    (hdone : done.headD first = w) (ws : List AcBlVma) :
    ∃ done', runsFrom first done (ps ++ ws) = runsFrom first done' ws ∧
      SameEnd v (done'.headD first) := by
  generalize hl : w :: ps = l at hps
  induction hps generalizing w ps done with
  | whole v =>
    obtain ⟨rfl, rfl⟩ := List.cons.inj hl
    exact ⟨done, rfl, hdone ▸ .refl _⟩
  | @split v p l hlo hhi hps ih =>
    obtain ⟨rfl, rfl⟩ := List.cons.inj hl
    obtain ⟨u, rest, rfl, hu⟩ := hps.exists_cons
    have hc : continues first (v.below p) u = true := by
      have hadj := adjacent_below_above v p
      simp only [continues, Bool.and_eq_true, decide_eq_true_eq]
      exact ⟨⟨⟨hu.inode.symm.trans hinode, hu.path.symm.trans hpath⟩,
        hu.start.symm.trans hadj.start⟩, hu.offset.symm.trans hadj.offset⟩
    obtain ⟨done', hrun, hend⟩ := ih hinode hpath (rfl : (u :: done).headD first = u) rfl
    refine ⟨done', ?_, ?_⟩
    · rw [List.cons_append, runsFrom, hdone, if_pos hc, hrun]
    · have habove := sameEnd_above v p
      exact ⟨habove.stop.trans hend.stop, habove.offset.trans hend.offset⟩

lemma Run.last_mk_reverse (first : AcBlVma) (done : List AcBlVma) :
    (Run.mk first done.reverse).last = done.headD first := by
  cases done <;> simp [Run.last]

lemma Run.SameRange.of_ends (hfirst : SameHead first first')
    (hlast : SameEnd (done.headD first) (done'.headD first')) :
    Run.SameRange ⟨first, done.reverse⟩ ⟨first', done'.reverse⟩ := by
  refine ⟨hfirst, ?_⟩
  rw [Run.last_mk_reverse, Run.last_mk_reverse]
  exact hlast

/-- The runs of a list and of one that refines it, with a run begun in both. -/
lemma sameRange_runsFrom {vs ws : List AcBlVma} (h : Refines vs ws)
    (hfirst : SameHead first first') (hlast : SameEnd (done.headD first) (done'.headD first')) :
    List.Forall₂ Run.SameRange (runsFrom first done vs) (runsFrom first' done' ws) := by
  induction h generalizing first first' done done' with
  | nil => exact .cons (.of_ends hfirst hlast) .nil
  | @cons v ps vs ws hps hvs ih =>
    obtain ⟨w, rest, rfl, hw⟩ := hps.exists_cons
    rw [runsFrom, List.cons_append, runsFrom, continues_congr hfirst hlast hw]
    split_ifs with hc
    · simp only [continues, Bool.and_eq_true, decide_eq_true_eq] at hc
      obtain ⟨done₂, hrun, hend⟩ := runsFrom_pieces hps (hw.inode.trans hc.1.1.1)
        (hw.path.trans hc.1.1.2) (rfl : (w :: done').headD first' = w) ws
      rw [hrun]
      exact ih hfirst hend
    · obtain ⟨done₂, hrun, hend⟩ := runsFrom_pieces hps hw.inode hw.path
        (rfl : ([] : List AcBlVma).headD w = w) ws
      rw [hrun]
      exact .cons (.of_ends hfirst hlast) (ih hw hend)

/-- Splitting mappings keeps the runs. -/
lemma sameRange_baselineRuns {vs ws : List AcBlVma} (h : Refines vs ws) :
    List.Forall₂ Run.SameRange (baselineRuns vs) (baselineRuns ws) := by
  cases h with
  | nil => exact .nil
  | @cons v ps vs ws hps hvs =>
    obtain ⟨w, rest, rfl, hw⟩ := hps.exists_cons
    obtain ⟨done, hrun, hend⟩ := runsFrom_pieces hps hw.inode hw.path
      (rfl : ([] : List AcBlVma).headD w = w) ws
    rw [List.cons_append, baselineRuns, baselineRuns, hrun]
    exact sameRange_runsFrom hvs hw hend

/-! ### The verdicts -/

namespace Run.SameRange

variable {R S : Run} (h : R.SameRange S)
include h

lemma rs_eq : R.rs = S.rs := h.first.offset

lemma re_eq : R.re = S.re := h.last.offset

lemma kind_eq : R.kind = S.kind := by
  funext r
  rw [kind, kind, h.first.inode, h.rs_eq, h.re_eq]

lemma recordVerdict_eq (mem : ProcMem) : R.recordVerdict mem = S.recordVerdict mem := by
  funext r
  rw [recordVerdict, recordVerdict, digest, digest, h.first.start, h.rs_eq]

lemma loops_eq (mem : ProcMem) (recs : List AcBaselineRec) :
    R.loops mem recs = S.loops mem recs := by
  have hfit : R.checkFitting mem = S.checkFitting mem := by
    funext res r
    rw [checkFitting, checkFitting, runLen, runLen, h.kind_eq, h.recordVerdict_eq, h.rs_eq,
      h.re_eq]
  have hpartly : R.checkPartly recs = S.checkPartly recs := by
    funext res r
    rw [checkPartly, checkPartly, fitting, fitting, h.kind_eq, h.rs_eq, h.re_eq]
  rw [loops, loops, hfit, hpartly]

/-- `baseline_check_run` sees only the range of the run. -/
lemma baselineCheckRun_eq (files : Files) (dir : Bytes) (mem : ProcMem) :
    baselineCheckRun files dir mem R = baselineCheckRun files dir mem S := by
  unfold baselineCheckRun records check
  rw [h.first.path]
  simp only [h.loops_eq]

end Run.SameRange

/-- Splitting mappings at points inside them changes nothing for the runs: they have the same start,
file offset and length, and `baseline_check_run` gives the same result for each. -/
theorem baselineRuns_refines {vs ws : List AcBlVma} (h : Refines vs ws) :
    List.Forall₂ (fun R S => R.first.start = S.first.start ∧ R.rs = S.rs ∧
        R.re - R.rs = S.re - S.rs ∧ ∀ files dir mem,
          baselineCheckRun files dir mem R = baselineCheckRun files dir mem S)
      (baselineRuns vs) (baselineRuns ws) := by
  refine (sameRange_baselineRuns h).imp fun R S hRS => ?_
  exact ⟨hRS.first.start, hRS.rs_eq, by rw [hRS.re_eq, hRS.rs_eq], hRS.baselineCheckRun_eq⟩

/-- Two pages of a file, of which the second is split off. -/
theorem baselineRuns_refines_two :
    (baselineRuns [⟨0x1000, 0x3000, 0, 7, []⟩]).length = 1 ∧
    List.Forall₂ (fun R S => R.first.start = S.first.start ∧ R.rs = S.rs ∧
        R.re - R.rs = S.re - S.rs ∧ ∀ files dir mem,
          baselineCheckRun files dir mem R = baselineCheckRun files dir mem S)
      (baselineRuns [⟨0x1000, 0x3000, 0, 7, []⟩])
      (baselineRuns [⟨0x1000, 0x2000, 0, 7, []⟩, ⟨0x2000, 0x3000, 0x1000, 7, []⟩]) :=
  ⟨rfl, baselineRuns_refines
    (.cons (.split (p := 0x2000) (by decide) (by decide) (.whole _)) .nil)⟩

end Anticheat.Baseline
