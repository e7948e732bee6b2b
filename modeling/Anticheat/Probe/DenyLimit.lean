import Anticheat.Probe.Basic
import Mathlib.Algebra.BigOperators.Group.List.Basic

/-!
# The rate limit for denial events

`ac_deny_event_allowed` over a whole sequence of denials of one type. A window opens at the first
denial after the one before it has expired, so windows start more than `HZ` jiffies apart and a
range of `HZ + 1` jiffies meets at most two of them. Every denial is an event of its own or is
counted in a summary, or will be.
-/

namespace Anticheat

/-- The answer to one call of `ac_deny_event_allowed`, and when it was made. -/
structure DenyAnswer where
  jiffies : ℕ
  ok : Bool
  suppressed : ℕ
  deriving DecidableEq, Repr

/-- A limiter and what it has answered so far. -/
structure DenyLog where
  rl : AcDenyRl
  answers : List DenyAnswer
  deriving DecidableEq, Repr

/-- The events of a denial with this answer: the summary of what was dropped, and the denial. -/
def Denial.emits (d : Denial) (a : DenyAnswer) : List AcEmit :=
  if a.ok then
    (if a.suppressed ≠ 0 then
      [⟨d.type, d.target, d.tcomm, d.summary (BitVec.ofNat 32 a.suppressed)⟩] else []) ++
      [⟨d.type, d.target, d.tcomm, d.text⟩]
  else []

lemma Denial.length_emits_le (d : Denial) (a : DenyAnswer) :
    (d.emits a).length ≤ if a.ok then 2 else 0 := by
  unfold Denial.emits
  split_ifs <;> simp

namespace DenyLog

/-- A limiter as the module is loaded with it. -/
def init : DenyLog := ⟨⟨0, 0, 0⟩, []⟩

/-- One call at the given time. -/
def call (hz : BitVec 64) (s : DenyLog) (jiffies : BitVec 64) : DenyLog :=
  let (ok, suppressed, rl) := acDenyEventAllowed jiffies hz s.rl
  ⟨rl, s.answers ++ [⟨jiffies.toNat, ok, suppressed.toNat⟩]⟩

/-- A sequence of calls. -/
def calls (hz : BitVec 64) (js : List (BitVec 64)) : DenyLog := js.foldl (call hz) init

variable {hz j : BitVec 64} {rl : AcDenyRl} {s : DenyLog}

/-- A clock that does not run backwards is past the end of a window only when it is. -/
lemma lt_of_timeAfter {a b : BitVec 64} (hhz : hz.toNat < 2 ^ 63) (hle : b.toNat ≤ a.toNat)
    (h : timeAfter a (b + hz) = true) : b.toNat + hz.toNat < a.toNat := by
  by_contra hnot
  have hsub : (b + hz - a).toNat = b.toNat + hz.toNat - a.toNat := by
    have ha := a.isLt
    have hb := b.isLt
    rw [BitVec.toNat_sub, BitVec.toNat_add]
    omega
  simp only [timeAfter, BitVec.ofNat_eq_ofNat, BitVec.slt_zero_eq_msb, BitVec.msb_eq_decide,
    decide_eq_true_eq, hsub] at h
  omega

/-- What a call does: open a window, count the event, or drop it. -/
inductive Rule (hz j : BitVec 64) (rl : AcDenyRl) : Bool × BitVec 32 × AcDenyRl → Prop
  | opened : rl.n = 0 ∨ timeAfter j (rl.windowStart + hz) = true →
      Rule hz j rl (true, rl.suppressed, ⟨j, 1, 0⟩)
  | counted : rl.n ≠ 0 → timeAfter j (rl.windowStart + hz) = false → rl.n.toNat < 8 →
      Rule hz j rl (true, 0, { rl with n := rl.n + 1 })
  | dropped : rl.n ≠ 0 → timeAfter j (rl.windowStart + hz) = false → 8 ≤ rl.n.toNat →
      Rule hz j rl (false, 0, { rl with suppressed := rl.suppressed + 1 })

lemma rule_acDenyEventAllowed (hz j : BitVec 64) (rl : AcDenyRl) :
    Rule hz j rl (acDenyEventAllowed j hz rl) := by
  by_cases hreset : rl.n = 0 ∨ timeAfter j (rl.windowStart + hz) = true
  · have heq : acDenyEventAllowed j hz rl = (true, rl.suppressed, ⟨j, 1, 0⟩) := by
      have hb : (rl.n == 0 || timeAfter j (rl.windowStart + hz)) = true := by simpa using hreset
      simp only [acDenyEventAllowed, hb, if_true]
      rfl
    rw [heq]
    exact .opened hreset
  · have hb : (rl.n == 0 || timeAfter j (rl.windowStart + hz)) = false := by simpa using hreset
    rw [not_or, Bool.not_eq_true] at hreset
    have hult : rl.n.ult acDenyEvBurst = decide (rl.n.toNat < 8) := rfl
    simp only [acDenyEventAllowed, hb, Bool.false_eq_true, if_false, hult, decide_eq_true_eq]
    split_ifs with hn
    · rw [decide_eq_true hn]
      exact .counted hreset.1 hreset.2 hn
    · rw [decide_eq_false hn]
      exact .dropped hreset.1 hreset.2 (not_lt.mp hn)

/-! ### What holds after every call -/

/-- How many calls were allowed at times of which `P` holds. -/
def allowed (s : DenyLog) (P : ℕ → Prop) [DecidablePred P] : ℕ :=
  s.answers.countP fun a => a.ok && P a.jiffies

lemma allowed_append (rl : AcDenyRl) (as : List DenyAnswer) (a : DenyAnswer) (P : ℕ → Prop)
    [DecidablePred P] : (DenyLog.mk rl (as ++ [a])).allowed P =
      (DenyLog.mk rl as).allowed P + if a.ok = true ∧ P a.jiffies then 1 else 0 := by
  simp [allowed, List.countP_append, List.countP_singleton]

lemma allowed_mono {P Q : ℕ → Prop} [DecidablePred P] [DecidablePred Q]
    (h : ∀ a ∈ s.answers, P a.jiffies → Q a.jiffies) : s.allowed P ≤ s.allowed Q := by
  refine List.countP_mono_left fun a ha hP => ?_
  simp only [Bool.and_eq_true, decide_eq_true_eq] at hP ⊢
  exact ⟨hP.1, h a ha hP.2⟩

lemma allowed_le_add {P Q R : ℕ → Prop} [DecidablePred P] [DecidablePred Q] [DecidablePred R]
    (h : ∀ t, P t → Q t ∨ R t) : s.allowed P ≤ s.allowed Q + s.allowed R := by
  unfold allowed
  induction s.answers with
  | nil => simp
  | cons a as ih =>
    have ha := h a.jiffies
    simp only [List.countP_cons, Bool.and_eq_true, decide_eq_true_eq]
    split_ifs <;> first | omega | tauto

/-- The counts of a limiter and the windows it has opened. -/
structure Inv (hz : BitVec 64) (s : DenyLog) : Prop where
  total : s.answers.length = s.answers.countP (·.ok) + (s.answers.map (·.suppressed)).sum +
    s.rl.suppressed.toNat
  withOk : ∀ a ∈ s.answers, a.suppressed ≠ 0 → a.ok = true
  burst : s.rl.n.toNat ≤ 8
  started : s.rl.n = 0 → s.answers = []
  start : s.rl.n ≠ 0 → ∃ a ∈ s.answers, a.jiffies = s.rl.windowStart.toNat
  inWindow : ∀ a ∈ s.answers, s.rl.windowStart.toNat ≤ a.jiffies →
    timeAfter (BitVec.ofNat 64 a.jiffies) (s.rl.windowStart + hz) = false
  current : s.allowed (s.rl.windowStart.toNat ≤ ·) = s.rl.n.toNat
  /-- the allowed calls before this window that are in reach of its start -/
  before : s.allowed (fun t => t < s.rl.windowStart.toNat ∧
    s.rl.windowStart.toNat ≤ t + hz.toNat) ≤ 8
  bound : ∀ t, s.allowed (fun u => t ≤ u ∧ u ≤ t + hz.toNat) ≤ 16

lemma Inv.init (hz : BitVec 64) : Inv hz .init where
  total := rfl
  withOk := by simp [DenyLog.init]
  burst := by decide
  started _ := rfl
  start h := absurd rfl h
  inWindow := by simp [DenyLog.init]
  current := rfl
  before := by simp [allowed, DenyLog.init]
  bound t := by simp [allowed, DenyLog.init]

/-- The window starts at a call. -/
lemma Inv.start_le (h : s.Inv hz) (hn : s.rl.n ≠ 0) (hj : ∀ a ∈ s.answers, a.jiffies ≤ j.toNat) :
    s.rl.windowStart.toNat ≤ j.toNat := by
  obtain ⟨a, ha, heq⟩ := h.start hn
  exact heq ▸ hj a ha

/-- All calls so far are before one that opens a window. -/
lemma Inv.lt_of_opened (h : s.Inv hz)
    (hreset : s.rl.n = 0 ∨ timeAfter j (s.rl.windowStart + hz) = true)
    (hj : ∀ a ∈ s.answers, a.jiffies ≤ j.toNat) : ∀ a ∈ s.answers, a.jiffies < j.toNat := by
  intro a ha
  refine lt_of_le_of_ne (hj a ha) fun heq => ?_
  by_cases hn : s.rl.n = 0
  · rw [h.started hn] at ha
    cases ha
  · have hin := h.inWindow a ha (heq ▸ h.start_le hn hj)
    rw [heq, BitVec.ofNat_toNat, BitVec.setWidth_eq] at hin
    exact absurd (hreset.resolve_left hn) (by simp [hin])

/-- Of the calls before one that opens a window, those in its reach are of the last window. -/
lemma Inv.before_of_opened (h : s.Inv hz) (hhz : hz.toNat < 2 ^ 63)
    (hreset : s.rl.n = 0 ∨ timeAfter j (s.rl.windowStart + hz) = true)
    (hj : ∀ a ∈ s.answers, a.jiffies ≤ j.toNat) :
    s.allowed (fun t => t < j.toNat ∧ j.toNat ≤ t + hz.toNat) ≤ 8 := by
  by_cases hn : s.rl.n = 0
  · simp [allowed, h.started hn]
  · have hafter := lt_of_timeAfter hhz (h.start_le hn hj) (hreset.resolve_left hn)
    calc s.allowed (fun t => t < j.toNat ∧ j.toNat ≤ t + hz.toNat)
        ≤ s.allowed (s.rl.windowStart.toNat ≤ ·) := allowed_mono fun a _ ht => by omega
      _ = s.rl.n.toNat := h.current
      _ ≤ 8 := h.burst

lemma Inv.withOk_append (h : s.Inv hz) {a : DenyAnswer} (ha : a.suppressed ≠ 0 → a.ok = true) :
    ∀ b ∈ s.answers ++ [a], b.suppressed ≠ 0 → b.ok = true := by
  intro b hb
  rcases List.mem_append.mp hb with hb | hb
  · exact h.withOk b hb
  · rwa [List.mem_singleton.mp hb]

lemma Inv.opened (h : s.Inv hz) (hhz : hz.toNat < 2 ^ 63)
    (hreset : s.rl.n = 0 ∨ timeAfter j (s.rl.windowStart + hz) = true)
    (hj : ∀ a ∈ s.answers, a.jiffies ≤ j.toNat) :
    Inv hz ⟨⟨j, 1, 0⟩, s.answers ++ [⟨j.toNat, true, s.rl.suppressed.toNat⟩]⟩ where
  total := by
    have htotal := h.total
    simp only [List.length_append, List.countP_append, List.map_append, List.sum_append]
    simp
    omega
  withOk := h.withOk_append fun _ => rfl
  burst := show (1 : ℕ) ≤ 8 by decide
  started hn := absurd hn (show (1 : BitVec 32) ≠ 0 by decide)
  start _ := ⟨_, List.mem_append_right _ (List.mem_singleton_self _), rfl⟩
  inWindow a ha hle := by
    rcases List.mem_append.mp ha with ha | ha
    · exact absurd (h.lt_of_opened hreset hj a ha) (not_lt.mpr hle)
    · rw [List.mem_singleton.mp ha, BitVec.ofNat_toNat, BitVec.setWidth_eq]
      refine Bool.eq_false_iff.mpr fun hafter => ?_
      have := lt_of_timeAfter hhz le_rfl hafter
      omega
  current := by
    have hnone : s.allowed (j.toNat ≤ ·) = 0 := by
      refine List.countP_eq_zero.mpr fun a ha => ?_
      simpa using fun _ => h.lt_of_opened hreset hj a ha
    rw [allowed_append]
    simpa [allowed] using hnone
  before := by
    rw [allowed_append]
    simpa [allowed] using h.before_of_opened hhz hreset hj
  bound t := by
    rw [allowed_append]
    split_ifs with hin
    · -- the calls in the range before this one are in reach of it
      have hrange : s.allowed (fun u => t ≤ u ∧ u ≤ t + hz.toNat) ≤
          s.allowed (fun t => t < j.toNat ∧ j.toNat ≤ t + hz.toNat) :=
        allowed_mono fun a ha hu => ⟨h.lt_of_opened hreset hj a ha, hin.2.2.trans (by omega)⟩
      have hbefore := h.before_of_opened hhz hreset hj
      simp only [allowed] at hrange hbefore ⊢
      omega
    · exact h.bound t

/-- A call in the window that is open neither starts one nor is before it. -/
lemma Inv.within (h : s.Inv hz) (hn : s.rl.n ≠ 0)
    (hwin : timeAfter j (s.rl.windowStart + hz) = false)
    (hj : ∀ a ∈ s.answers, a.jiffies ≤ j.toNat)
    {ok : Bool} {rl : AcDenyRl} (hstart : rl.windowStart = s.rl.windowStart)
    (hnum : rl.n.toNat = s.rl.n.toNat + if ok then 1 else 0)
    (hsupp : rl.suppressed.toNat = s.rl.suppressed.toNat + if ok then 0 else 1)
    (hburst : rl.n.toNat ≤ 8) : Inv hz ⟨rl, s.answers ++ [⟨j.toNat, ok, 0⟩]⟩ := by
  have hle := h.start_le hn hj
  have htotal := h.total
  have hcurrent := h.current
  have hbefore := h.before
  refine ⟨?_, h.withOk_append (by simp), hburst, ?_, ?_, ?_, ?_, ?_, fun t => ?_⟩
  · cases ok <;> simp [hsupp, htotal] <;> omega
  · intro h0
    have hpos : s.rl.n.toNat ≠ 0 := fun h => hn (BitVec.eq_of_toNat_eq h)
    simp only at h0
    simp [h0] at hnum
    omega
  · intro _
    obtain ⟨a, ha, heq⟩ := h.start hn
    exact ⟨a, List.mem_append_left _ ha, hstart ▸ heq⟩
  · intro a ha hwa
    simp only [hstart] at hwa ⊢
    rcases List.mem_append.mp ha with ha | ha
    · exact h.inWindow a ha hwa
    · rw [List.mem_singleton.mp ha, BitVec.ofNat_toNat, BitVec.setWidth_eq]
      exact hwin
  · rw [allowed_append]
    simp only [hstart, hnum, hle, and_true]
    exact congrArg (· + _) hcurrent
  · rw [allowed_append, hstart, if_neg (fun hlt => absurd hlt.2.1 (not_lt.mpr hle))]
    exact hbefore
  · rw [allowed_append]
    split_ifs with hin
    · -- the range meets this window and the reach of its start
      have hsplit : s.allowed (fun u => t ≤ u ∧ u ≤ t + hz.toNat) ≤ _ :=
        allowed_le_add (Q := fun u => u < s.rl.windowStart.toNat ∧
          s.rl.windowStart.toNat ≤ u + hz.toNat) (R := (s.rl.windowStart.toNat ≤ ·))
          fun u hu => by have := hin.2.2; simp only at this; omega
      rw [if_pos (show ok = true from hin.1)] at hnum
      simp only [allowed] at hsplit hbefore hcurrent ⊢
      omega
    · exact h.bound t

/-- In a sequence of calls the times seen so far are not after the next one. -/
theorem Inv.call (h : s.Inv hz) (hhz : hz.toNat < 2 ^ 63)
    (hj : ∀ a ∈ s.answers, a.jiffies ≤ j.toNat) (hlen : s.answers.length + 1 < 2 ^ 32) :
    (s.call hz j).Inv hz := by
  have hrule := rule_acDenyEventAllowed hz j s.rl
  simp only [DenyLog.call]
  generalize acDenyEventAllowed j hz s.rl = res at hrule
  cases hrule with
  | opened hreset => exact h.opened hhz hreset hj
  | counted hn hwin hn8 =>
    have hnum : (s.rl.n + 1).toNat = s.rl.n.toNat + 1 := by
      rw [BitVec.toNat_add]
      exact Nat.mod_eq_of_lt (by simp; omega)
    exact h.within hn hwin hj rfl hnum rfl (by simp only [hnum]; omega)
  | dropped hn hwin hn8 =>
    have hnum : (s.rl.suppressed + 1).toNat = s.rl.suppressed.toNat + 1 := by
      have htotal := h.total
      rw [BitVec.toNat_add]
      exact Nat.mod_eq_of_lt (by simp; omega)
    exact h.within hn hwin hj rfl rfl hnum h.burst

lemma answers_call (hz : BitVec 64) (s : DenyLog) (j : BitVec 64) :
    (s.call hz j).answers.map (·.jiffies) = s.answers.map (·.jiffies) ++ [j.toNat] := by
  simp [DenyLog.call]

lemma jiffies_calls (hz : BitVec 64) (js : List (BitVec 64)) :
    (calls hz js).answers.map (·.jiffies) = js.map BitVec.toNat := by
  induction js using List.reverseRecOn with
  | nil => rfl
  | append_singleton js j ih =>
    rw [calls, List.foldl_append, List.foldl_cons, List.foldl_nil, answers_call,
      List.map_append, List.map_singleton]
    exact congrArg (· ++ _) ih

/-- The invariant holds along every sequence of calls at times that do not decrease. -/
theorem inv_calls (hhz : hz.toNat < 2 ^ 63) {js : List (BitVec 64)}
    (hjs : js.Pairwise fun a b => a.toNat ≤ b.toNat) (hlen : js.length < 2 ^ 32) :
    (calls hz js).Inv hz := by
  induction js using List.reverseRecOn with
  | nil => exact .init hz
  | append_singleton js j ih =>
    obtain ⟨hjs, -, hlast⟩ := List.pairwise_append.mp hjs
    have hlength : (calls hz js).answers.length = js.length := by
      simpa using congrArg List.length (jiffies_calls hz js)
    rw [List.length_append, List.length_singleton] at hlen
    rw [calls, List.foldl_append]
    refine (ih hjs (by omega)).call hhz (fun a ha => ?_) (by omega)
    have hmem : a.jiffies ∈ js.map BitVec.toNat :=
      jiffies_calls hz js ▸ List.mem_map_of_mem ha
    obtain ⟨i, hi, heq⟩ := List.mem_map.mp hmem
    exact heq ▸ hlast i hi j (List.mem_singleton_self j)

/-- Every denial is allowed, counted in a summary that was handed out or waiting to be; a summary
comes with an allowed denial; and any `HZ + 1` jiffies have at most 16 allowed denials, and so at
most 32 events. -/
theorem calls_conserved (hhz : hz.toNat < 2 ^ 63) {js : List (BitVec 64)}
    (hjs : js.Pairwise fun a b => a.toNat ≤ b.toNat) (hlen : js.length < 2 ^ 32) :
    js.length = (calls hz js).answers.countP (·.ok) +
        ((calls hz js).answers.map (·.suppressed)).sum + (calls hz js).rl.suppressed.toNat ∧
      (∀ a ∈ (calls hz js).answers, a.suppressed ≠ 0 → a.ok = true) ∧
      ∀ t, (calls hz js).allowed (fun u => t ≤ u ∧ u ≤ t + hz.toNat) ≤ 16 ∧
        ∀ d : DenyAnswer → Denial, (((calls hz js).answers.filter fun a =>
          t ≤ a.jiffies ∧ a.jiffies ≤ t + hz.toNat).flatMap fun a => (d a).emits a).length ≤
            32 := by
  have hinv := inv_calls hhz hjs hlen
  have hlength : (calls hz js).answers.length = js.length := by
    simpa using congrArg List.length (jiffies_calls hz js)
  refine ⟨hlength ▸ hinv.total, hinv.withOk, fun t => ⟨hinv.bound t, fun d => ?_⟩⟩
  have hevents : ∀ as : List DenyAnswer, (as.flatMap fun a => (d a).emits a).length ≤
      2 * as.countP (·.ok) := by
    intro as
    induction as with
    | nil => simp
    | cons a as ih =>
      have ha := (d a).length_emits_le a
      rw [List.flatMap_cons, List.length_append, List.countP_cons]
      split_ifs at ha ⊢ <;> omega
  have hbound := hinv.bound t
  have hcount := hevents ((calls hz js).answers.filter fun a =>
    t ≤ a.jiffies ∧ a.jiffies ≤ t + hz.toNat)
  rw [List.countP_filter] at hcount
  simp only [allowed] at hbound
  omega

/-- Ten denials at once and one after the window: eight are events, two are counted. -/
theorem calls_conserved_flood :
    (List.replicate 10 (0 : BitVec 64) ++ [251]).length =
        (calls 250 (List.replicate 10 0 ++ [251])).answers.countP (·.ok) +
        ((calls 250 (List.replicate 10 0 ++ [251])).answers.map (·.suppressed)).sum +
        (calls 250 (List.replicate 10 0 ++ [251])).rl.suppressed.toNat ∧
      ((calls 250 (List.replicate 10 0 ++ [251])).answers.map (·.suppressed)).sum = 2 :=
  ⟨(calls_conserved (by decide) (by decide) (by decide)).1, by decide⟩

end DenyLog

end Anticheat
