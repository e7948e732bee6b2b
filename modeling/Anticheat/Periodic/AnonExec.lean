import Anticheat.Baseline.Runs
import Anticheat.Lib.SlotTable
import Anticheat.Registry.Basic
import Mathlib.Data.List.ReduceOption

/-!
# New anonymous executable mappings

`scan_protected_periodic` remembers for each protected process how many anonymous executable
mappings it last had, in a table of `AC_MAX_PROTS` slots, and reports when there are more of them.
The table remembers exactly the processes that were scanned and stayed listed since.
-/

namespace Anticheat.Periodic

open SlotTable
open Baseline (acMaxVmas)

/-! ### The protected list -/

/-- `clamp_prot_count` on the list that `AC_IOCTL_LIST_PROTECTED` returned. -/
def clampProts (items : List AcProtItem) : List AcProtItem := items.take acMaxProts

/-- The processes a list names. -/
def pids (items : List AcProtItem) : List ℤ := items.map AcProtItem.pid

/-! ### The scan -/

/-- What `AC_IOCTL_SCAN_BEGIN` counts in a process. -/
structure AcScanBegin where
  nVmas : UInt32
  rwxCount : UInt32
  anonExecCount : UInt32
  deriving DecidableEq, Repr

/-- The lines that `scan_protected_periodic` writes. -/
inductive ScanLine where
  | protsTruncated (reported : ℕ)
  | vmasTruncated (reported : UInt32)
  | rwx (pid : ℤ) (comm : String) (count : UInt32)
  | growth (pid : ℤ) (comm : String) (jitAllowed : Bool) (was now : UInt32)
  deriving DecidableEq, Repr

def ScanLine.prio : ScanLine → LogPrio
  | .protsTruncated _ => .warning
  | .vmasTruncated _ => .warning
  | .rwx .. => .warning
  | .growth _ _ jitAllowed _ _ => if jitAllowed then .warning else .crit

def ScanLine.text : ScanLine → String
  | .protsTruncated reported => "kernel reported " ++ toString reported ++
      " protected processes (max " ++ toString acMaxProts ++ "); truncating"
  | .vmasTruncated reported => "kernel reported " ++ toString reported ++
      " VMAs (max " ++ toString acMaxVmas ++ "); truncating"
  | .rwx pid comm count => "pid " ++ toString pid ++ " (" ++ comm ++ "): " ++ toString count ++
      " RWX mapping(s) present"
  | .growth pid comm jitAllowed was now => "pid " ++ toString pid ++ " (" ++ comm ++ "): " ++
      toString (now - was) ++ " new anonymous executable mapping(s) since first observed (was " ++
      toString was ++ ", now " ++ toString now ++ ") -- " ++
      (if jitAllowed then "expected for a JIT-marked process, not auto-reported"
        else "possible code injection after process start")

/-- `g_anon_baseline` -/
abbrev AnonBaseline := Table acMaxProts ℤ UInt32

/-- `anon_baseline_forget_stale` -/
def anonBaselineForgetStale (t : AnonBaseline) (pl : List AcProtItem) : AnonBaseline :=
  forget t fun pid => pl.any (·.pid = pid)

/-- `anon_baseline_check`: the slot of the process, or a free one, takes the count. -/
def anonBaselineCheck (t : AnonBaseline) (item : AcProtItem) (count : UInt32) :
    AnonBaseline × List ScanLine :=
  (record t item.pid count,
    match find? t item.pid with
    | some was =>
      if was < count then [.growth item.pid item.comm item.jitAllowed was count] else []
    | none => [])

/-- The loop of `scan_protected_periodic`; `scan` is what `AC_IOCTL_SCAN_BEGIN` answers. -/
def scanItems (scan : ℤ → Option AcScanBegin) :
    List AcProtItem → AnonBaseline → AnonBaseline × List ScanLine
  | [], t => (t, [])
  | item :: items, t =>
    match scan item.pid with
    | none => scanItems scan items t
    | some b =>
      let (t, log) := anonBaselineCheck t item b.anonExecCount
      let (t, rest) := scanItems scan items t
      (t, (if acMaxVmas < b.nVmas.toNat then [.vmasTruncated b.nVmas] else []) ++
        (if 0 < b.rwxCount then [.rwx item.pid item.comm b.rwxCount] else []) ++ log ++ rest)

/-- What the kernel answers during one pass. -/
structure Pass where
  items : List AcProtItem
  scan : ℤ → Option AcScanBegin

/-- `scan_protected_periodic`; the pass is `none` if the list cannot be had. -/
def scanProtectedPeriodic (t : AnonBaseline) : Option Pass → AnonBaseline × List ScanLine × ℤ
  | none => (t, [], -1)
  | some p =>
    let pl := clampProts p.items
    let (t, log) := scanItems p.scan pl (anonBaselineForgetStale t pl)
    (t, (if acMaxProts < p.items.length then [.protsTruncated p.items.length] else []) ++ log, 0)

/-- The table after a sequence of passes. -/
def passes (ps : List (Option Pass)) : AnonBaseline :=
  ps.foldl (fun t p => (scanProtectedPeriodic t p).1) empty

/-! ### What happened to a process in a pass -/

namespace Pass

/-- At most `AC_MAX_PROTS` entries with distinct pids. -/
structure Fits (p : Pass) : Prop where
  length_le : p.items.length ≤ acMaxProts
  nodup : (pids p.items).Nodup

/-- The process was listed and scanned, with this count. -/
def Scanned (p : Pass) (pid : ℤ) (count : UInt32) : Prop :=
  pid ∈ pids p.items ∧ ∃ b, p.scan pid = some b ∧ b.anonExecCount = count

/-- The process was listed and could not be scanned. -/
def Missed (p : Pass) (pid : ℤ) : Prop := pid ∈ pids p.items ∧ p.scan pid = none

end Pass

/-- The count at the most recent successful scan of a process that has been listed ever since. -/
def LastScan (ps : List Pass) (pid : ℤ) (count : UInt32) : Prop :=
  Since (Pass.Missed · pid) (Pass.Scanned · pid count) ps

lemma lastScan_append {ps : List Pass} {p : Pass} {pid : ℤ} {count : UInt32} :
    LastScan (ps ++ [p]) pid count ↔
      p.Scanned pid count ∨ p.Missed pid ∧ LastScan ps pid count :=
  since_append_singleton

/-! ### One pass -/

lemma has_anonBaselineForgetStale {t : AnonBaseline} {pl : List AcProtItem} {pid : ℤ}
    {c : UInt32} : Has (anonBaselineForgetStale t pl) pid c ↔ Has t pid c ∧ pid ∈ pids pl := by
  simp [anonBaselineForgetStale, has_forget, pids]

@[simp] lemma anonBaselineCheck_fst (t : AnonBaseline) (item : AcProtItem) (count : UInt32) :
    (anonBaselineCheck t item count).1 = record t item.pid count := rfl

lemma mem_anonBaselineCheck {t : AnonBaseline} {ks : List ℤ} (ht : Tracks t ks)
    {item : AcProtItem} {count : UInt32} {line : ScanLine} :
    line ∈ (anonBaselineCheck t item count).2 ↔
      ∃ was, Has t item.pid was ∧ was < count ∧
        line = .growth item.pid item.comm item.jitAllowed was count := by
  simp only [anonBaselineCheck, ← ht.find?_eq_some]
  cases find? t item.pid with
  | none => simp
  | some was => by_cases hlt : was < count <;> simp [hlt]

/-- What the loop over the list leaves in the table, and which growth it reports. -/
structure LoopSpec (scan : ℤ → Option AcScanBegin) (items : List AcProtItem) (ks : List ℤ)
    (t : AnonBaseline) (r : AnonBaseline × List ScanLine) : Prop where
  tracks : Tracks r.1 ks
  has : ∀ pid c, Has r.1 pid c ↔
    (pid ∈ pids items ∧ ∃ b, scan pid = some b ∧ b.anonExecCount = c) ∨
      ((pid ∈ pids items → scan pid = none) ∧ Has t pid c)
  growth : ∀ pid comm jitAllowed was now, .growth pid comm jitAllowed was now ∈ r.2 ↔
    ⟨pid, jitAllowed, comm⟩ ∈ items ∧ Has t pid was ∧ was < now ∧
      ∃ b, scan pid = some b ∧ b.anonExecCount = now

section

variable {scan : ℤ → Option AcScanBegin} {item : AcProtItem} {items : List AcProtItem}
  {ks : List ℤ} {t : AnonBaseline} {r : AnonBaseline × List ScanLine}

/-- A process that cannot be scanned keeps what is known about it. -/
lemma LoopSpec.cons_none (hscan : scan item.pid = none) (h : LoopSpec scan items ks t r) :
    LoopSpec scan (item :: items) ks t r where
  tracks := h.tracks
  has pid c := by
    rw [h.has]
    by_cases hpid : pid = item.pid
    · subst hpid
      simp [pids, hscan]
    · simp [pids, hpid]
  growth pid comm jitAllowed was now := by
    rw [h.growth, List.mem_cons]
    constructor
    · rintro ⟨hmem, h⟩
      exact ⟨.inr hmem, h⟩
    · rintro ⟨rfl | hmem, h⟩
      · obtain ⟨-, -, b, hb, -⟩ := h
        cases hscan.symm.trans hb
      · exact ⟨hmem, h⟩

/-- A process that is scanned has its count replaced, and the others are not touched. -/
lemma LoopSpec.cons_some {b : AcScanBegin} (hscan : scan item.pid = some b)
    (ht : Tracks t ks) (hlen : ks.length ≤ acMaxProts) (hk : item.pid ∈ ks)
    (hnew : item.pid ∉ pids items) {pre : List ScanLine}
    (hpre : ∀ pid comm jitAllowed was now, .growth pid comm jitAllowed was now ∉ pre)
    (h : LoopSpec scan items ks (anonBaselineCheck t item b.anonExecCount).1 r) :
    LoopSpec scan (item :: items) ks t
      (r.1, pre ++ (anonBaselineCheck t item b.anonExecCount).2 ++ r.2) where
  tracks := h.tracks
  has pid c := by
    rw [h.has, anonBaselineCheck_fst, ht.has_record hlen hk]
    by_cases hpid : pid = item.pid
    · subst hpid
      have hnew' : item.pid ∉ items.map AcProtItem.pid := hnew
      simp [pids, hscan, hnew', eq_comm]
    · simp [pids, hpid]
  growth pid comm jitAllowed was now := by
    simp only [List.mem_append, hpre, false_or, mem_anonBaselineCheck ht, h.growth,
      anonBaselineCheck_fst, ht.has_record hlen hk, List.mem_cons]
    -- the later entries of the list have other pids
    have hne : ⟨pid, jitAllowed, comm⟩ ∈ items → pid ≠ item.pid := by
      rintro hmem rfl
      exact hnew (List.mem_map.mpr ⟨_, hmem, rfl⟩)
    constructor
    · rintro (⟨was', hwas, hlt, heq⟩ | ⟨hmem, hhas, hlt, hb⟩)
      · cases heq
        exact ⟨.inl rfl, hwas, hlt, b, hscan, rfl⟩
      · rw [if_neg (hne hmem)] at hhas
        exact ⟨.inr hmem, hhas, hlt, hb⟩
    · rintro ⟨rfl | hmem, hhas, hlt, b', hb', hnow⟩
      · cases hscan.symm.trans hb'
        subst hnow
        exact .inl ⟨was, hhas, hlt, rfl⟩
      · rw [if_neg (hne hmem)]
        exact .inr ⟨hmem, hhas, hlt, b', hb', hnow⟩

lemma scanItems_spec (hlen : ks.length ≤ acMaxProts) (hks : ∀ pid ∈ pids items, pid ∈ ks)
    (hnodup : (pids items).Nodup) (ht : Tracks t ks) :
    LoopSpec scan items ks t (scanItems scan items t) := by
  induction items generalizing t with
  | nil => exact ⟨ht, by simp [scanItems, pids], by simp [scanItems]⟩
  | cons item items ih =>
    obtain ⟨hk, hks⟩ := List.forall_mem_cons.mp hks
    obtain ⟨hnew, hnodup⟩ := List.nodup_cons.mp hnodup
    rw [scanItems]
    cases hscan : scan item.pid with
    | none => exact (ih hks hnodup ht).cons_none hscan
    | some b =>
      refine (ih hks hnodup (ht.record hlen hk _)).cons_some hscan ht hlen hk hnew ?_
      intro pid comm jitAllowed was now
      split_ifs <;> simp

end

/-- One pass in which the list can be had. -/
lemma scanProtectedPeriodic_spec {t : AnonBaseline} {ks : List ℤ} (ht : Tracks t ks) {p : Pass}
    (hp : p.Fits) :
    LoopSpec p.scan p.items (pids p.items) (anonBaselineForgetStale t p.items)
      ((scanProtectedPeriodic t (some p)).1, (scanProtectedPeriodic t (some p)).2.1) := by
  have hclamp : clampProts p.items = p.items := List.take_of_length_le hp.length_le
  have hlen : (pids p.items).length ≤ acMaxProts := (List.length_map ..).trans_le hp.length_le
  have hforget : Tracks (anonBaselineForgetStale t p.items) (pids p.items) := by
    refine ht.forget fun pid hpid => ?_
    simpa [pids] using hpid
  have h : LoopSpec p.scan p.items _ _ _ := scanItems_spec hlen (fun _ h => h) hp.nodup hforget
  simpa [scanProtectedPeriodic, hclamp, hp.length_le.not_gt] using h

/-! ### Sequences of passes -/

lemma passes_append (ps : List (Option Pass)) (p : Option Pass) :
    passes (ps ++ [p]) = (scanProtectedPeriodic (passes ps) p).1 := by
  simp [passes]

/-- The table holds exactly the processes that were scanned and stayed listed, with the count of
their last scan. -/
lemma passes_spec (ps : List (Option Pass)) (hps : ∀ p, some p ∈ ps → p.Fits) :
    (∃ ks, Tracks (passes ps) ks) ∧
      ∀ pid c, Has (passes ps) pid c ↔ LastScan ps.reduceOption pid c := by
  induction ps using List.reverseRecOn with
  | nil =>
    refine ⟨⟨[], tracks_empty []⟩, fun pid c => ?_⟩
    exact iff_of_false not_has_empty not_since_nil
  | append_singleton ps p ih =>
    obtain ⟨⟨ks, htracks⟩, hhas⟩ := ih fun p hp => hps p (by simp [hp])
    rw [passes_append]
    cases p with
    | none =>
      rw [List.reduceOption_append, List.reduceOption_singleton, Option.toList_none,
        List.append_nil]
      exact ⟨⟨ks, htracks⟩, hhas⟩
    | some p =>
      have h := scanProtectedPeriodic_spec htracks (hps p (by simp))
      refine ⟨⟨_, h.tracks⟩, ?_⟩
      intro pid c
      rw [h.has, has_anonBaselineForgetStale, hhas, List.reduceOption_append,
        List.reduceOption_singleton, Option.toList_some, lastScan_append, Pass.Scanned,
        Pass.Missed]
      by_cases hlisted : pid ∈ pids p.items <;> simp [hlisted]

/-- After any sequence of passes, a further one keeps every process that it scans in the table, in
a slot of its own, and reports growth exactly for the processes that have more mappings than at
their most recent scan, having been listed ever since. -/
theorem scanProtectedPeriodic_growth (ps : List (Option Pass)) (p : Pass)
    (hps : ∀ q, some q ∈ ps ++ [some p] → q.Fits) :
    let r := scanProtectedPeriodic (passes ps) (some p)
    (∀ pid c, p.Scanned pid c → Has r.1 pid c) ∧
    (∀ i j a b, r.1 i = some a → r.1 j = some b → a.1 = b.1 → i = j) ∧
    ∀ pid comm jitAllowed was now,
      .growth pid comm jitAllowed was now ∈ r.2.1 ↔
        ⟨pid, jitAllowed, comm⟩ ∈ p.items ∧ p.Scanned pid now ∧
          LastScan ps.reduceOption pid was ∧ was < now := by
  obtain ⟨⟨ks, htracks⟩, hhas⟩ := passes_spec ps fun q hq => hps q (by simp [hq])
  have h := scanProtectedPeriodic_spec htracks (hps p (by simp))
  refine ⟨fun pid c hc => (h.has pid c).mpr (.inl hc), h.tracks.distinct, ?_⟩
  intro pid comm jitAllowed was now
  have hlisted : ⟨pid, jitAllowed, comm⟩ ∈ p.items → pid ∈ pids p.items :=
    fun hmem => List.mem_map.mpr ⟨_, hmem, rfl⟩
  rw [h.growth, has_anonBaselineForgetStale, hhas, Pass.Scanned]
  tauto

/-- A pass over one process that is scanned with a given count, or not at all. -/
def Pass.single (count : Option UInt32) : Pass where
  items := [⟨7, false, "game"⟩]
  scan _ := count.map fun c => ⟨40, 0, c⟩

lemma Pass.single_fits (count : Option UInt32) : (single count).Fits :=
  ⟨by simp [single, acMaxProts], by simp [single, pids]⟩

/-- A scan that failed in between does not hide the growth. -/
theorem scanProtectedPeriodic_growth_missed :
    .growth 7 "game" false 1 3 ∈
      (scanProtectedPeriodic (passes [some (.single (some 1)), none, some (.single none)])
        (some (.single (some 3)))).2.1 := by
  have h := scanProtectedPeriodic_growth [some (.single (some 1)), none, some (.single none)]
    (.single (some 3)) (by simp [Pass.single_fits])
  refine (h.2.2 7 "game" false 1 3).mpr ⟨by simp [Pass.single], ?_, ?_, by decide⟩
  · exact ⟨by simp [Pass.single, pids], _, rfl, rfl⟩
  · refine ⟨[], .single (some 1), [.single none], rfl, ?_, ?_⟩
    · exact ⟨by simp [Pass.single, pids], _, rfl, rfl⟩
    · simp [Pass.Missed, Pass.single, pids]

end Anticheat.Periodic
