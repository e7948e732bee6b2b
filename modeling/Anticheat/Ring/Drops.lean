import Anticheat.Ring.GetEvents
import Mathlib.Data.List.Perm.Subperm

/-!
# `ac_dropped` and the events that were lost

`ac_emit` counts every eviction in `ac_dropped`, and the daemon reports the increase as events that
it never read. An event that is evicted between its peek and its commit is counted too, although
the call copies it out. In a run without such an eviction the count is right, and the first one
makes it wrong.

The list of evicted events is a history; nothing reads it.
-/

namespace Anticheat

open Transition

/-! ### Evictions -/

/-- The number of the event that the step evicts. -/
def RingSys.evicts (s : RingSys) : RingAct → List ℕ
  | .emit _ _ => if s.ring.count ≥ acRingSize then [s.oldest] else []
  | _ => []

/-- A successful `GET_EVENTS` has copied out event number `k`. -/
def RingSys.wasCopied (s : RingSys) (k : ℕ) : Bool := s.copied.any (·.2 = k)

/-- The system with the numbers of the events evicted so far. -/
structure RingLog where
  sys : RingSys
  evicted : List ℕ

namespace RingLog

def init : RingLog := ⟨RingSys.init, []⟩

def step (t : RingLog) (a : RingAct) : Option RingLog :=
  (t.sys.step a).map fun s => ⟨s, t.evicted ++ t.sys.evicts a⟩

/-- The number of events that were evicted and not copied out. -/
def lost (t : RingLog) : ℕ := t.evicted.countP (!t.sys.wasCopied ·)

/-- `ac_dropped` counts the events that were lost. -/
def Exact (t : RingLog) : Prop := t.sys.ring.dropped = BitVec.ofNat 32 t.lost

/-- The step neither evicts an event that was copied out nor copies out one that was evicted. -/
def clean (t : RingLog) : RingAct → Bool
  | .emit _ _ => t.sys.ring.count < acRingSize || !t.sys.wasCopied t.sys.oldest
  | .copy c true =>
    match t.sys.phase c with
    | .peeked p n => t.evicted.all fun k => k < n || n + p.events.length ≤ k
    | _ => true
  | _ => true

/-! ### The invariant -/

/-- The evicted events are counted, and are older than all that are stored. -/
structure Inv (t : RingLog) : Prop where
  sys : t.sys.Inv
  short : ∀ c p n, t.sys.phase c = .peeked p n → p.events.length ≤ acMaxEvents
  nodup : t.evicted.Nodup
  lt_oldest : ∀ k ∈ t.evicted, k < t.sys.oldest
  dropped : t.sys.ring.dropped = BitVec.ofNat 32 t.evicted.length

/-- No event was both evicted and copied out. -/
def Apart (t : RingLog) : Prop := ∀ k ∈ t.evicted, t.sys.wasCopied k = false

lemma inv_init : init.Inv where
  sys := .init
  short := fun _ _ _ h => nomatch h
  nodup := List.nodup_nil
  lt_oldest := fun _ h => nomatch h
  dropped := rfl

variable {t t' : RingLog} {a : RingAct}

lemma step_eq_some : t.step a = some t' ↔
    t.sys.step a = some t'.sys ∧ t'.evicted = t.evicted ++ t.sys.evicts a := by
  rw [step, Option.map_eq_some_iff]
  constructor
  · rintro ⟨s, hs, rfl⟩
    exact ⟨hs, rfl⟩
  · rintro ⟨hs, he⟩
    exact ⟨t'.sys, hs, by rw [← he]⟩

/-- Only an eviction is counted, and it removes the oldest event. -/
lemma dropped_step (hs : t.sys.Inv) (h : t.sys.step a = some t'.sys) :
    t'.sys.ring.dropped = t.sys.ring.dropped + BitVec.ofNat 32 (t.sys.evicts a).length ∧
      ∀ k ∈ t.sys.evicts a, k = t.sys.oldest ∧ t'.sys.oldest = t.sys.oldest + 1 := by
  obtain ⟨now, e, rfl, hs'⟩ | ⟨rfl, hs'⟩ | ⟨c, rfl, -, -, hs'⟩ | ⟨c, rfl, -, hs'⟩ |
    ⟨c, p, n, rfl, -, hs'⟩ | ⟨c, p, n, rfl, -, hs'⟩ | ⟨c, p, n, rfl, -, hs'⟩ :=
    RingSys.step_cases h
  · rcases hs.numbered.wf.count_le.lt_or_eq with hlt | hfull
    · rw [hs', acEmit_of_lt hlt, RingSys.evicts, if_neg (Nat.not_le.mpr hlt)]
      exact ⟨(BitVec.add_zero _).symm, by simp⟩
    · rw [RingSys.evicts, if_pos hfull.ge, hs', RingSys.oldest_emit hs.numbered, if_pos hfull,
        acEmit_of_full hfull]
      exact ⟨rfl, fun k hk => ⟨List.mem_singleton.mp hk, rfl⟩⟩
  · rw [hs', acDrainEvents_null hs.numbered]
    exact ⟨(BitVec.add_zero _).symm, by simp [RingSys.evicts]⟩
  all_goals
    rw [hs']
    exact ⟨(BitVec.add_zero _).symm, by simp [RingSys.evicts]⟩

lemma short_step (ht : t.Inv) (h : t.sys.step a = some t'.sys) (c : ℕ) (p : AcPeek) (n : ℕ)
    (hp : t'.sys.phase c = .peeked p n) : p.events.length ≤ acMaxEvents := by
  -- a caller that just peeked has at most `AC_MAX_EVENTS`; the others have not moved
  have hmoved : ∀ d ph, t'.sys.phase = Function.update t.sys.phase d ph →
      (∀ p n, ph = .peeked p n → p.events.length ≤ acMaxEvents) →
      p.events.length ≤ acMaxEvents := by
    intro d ph hph hshort
    rw [hph] at hp
    rcases eq_or_ne c d with rfl | hc
    · rw [Function.update_self] at hp
      exact hshort p n hp
    · rw [Function.update_of_ne hc] at hp
      exact ht.short c p n hp
  obtain ⟨now, e, -, hs'⟩ | ⟨-, hs'⟩ | ⟨d, -, -, -, hs'⟩ | ⟨d, -, -, hs'⟩ |
    ⟨d, q, m, -, -, hs'⟩ | ⟨d, q, m, -, -, hs'⟩ | ⟨d, q, m, -, -, hs'⟩ := RingSys.step_cases h
  · exact ht.short c p n (by rwa [hs'] at hp)
  · exact ht.short c p n (by rwa [hs'] at hp)
  · exact hmoved d _ (by rw [hs']) (by simp)
  · refine hmoved d _ (by rw [hs']) fun p n hp => ?_
    cases hp
    rw [length_acPeekEvents ht.sys.numbered]
    exact Nat.min_le_right _ _
  · exact hmoved d _ (by rw [hs']) (by simp)
  · exact hmoved d _ (by rw [hs']) (by simp)
  · exact hmoved d _ (by rw [hs']) (by simp)

lemma Inv.step (ht : t.Inv) (h : t.step a = some t') : t'.Inv := by
  obtain ⟨hsys, hev⟩ := step_eq_some.mp h
  obtain ⟨hdrop, hnew⟩ := dropped_step ht.sys hsys
  have hold := (RingSys.step_mono ht.sys hsys).1
  refine ⟨ht.sys.step hsys, short_step ht hsys, ?_, fun k hk => ?_, ?_⟩
  · rw [hev, List.nodup_append]
    refine ⟨ht.nodup, ?_, fun k hk l hl hkl => ?_⟩
    · cases a <;> simp only [RingSys.evicts, List.nodup_nil]
      split_ifs <;> simp
    · have := ht.lt_oldest k hk
      have := (hnew l hl).1
      omega
  · rw [hev, List.mem_append] at hk
    rcases hk with hk | hk
    · exact (ht.lt_oldest k hk).trans_le hold
    · have := hnew k hk
      omega
  · rw [hdrop, ht.dropped, hev, List.length_append, BitVec.ofNat_add]

/-! ### When the count is right -/

/-- The number of events that were evicted and copied out. -/
def reread (t : RingLog) : ℕ := t.evicted.countP (t.sys.wasCopied ·)

/-- `ac_dropped` counts these too. -/
lemma exact_iff (ht : t.Inv) : t.Exact ↔ 2 ^ 32 ∣ t.reread := by
  have hlen : t.evicted.length = t.reread + t.lost := by
    rw [reread, lost, List.length_eq_countP_add_countP (t.sys.wasCopied ·)]
    simp
  rw [Exact, ht.dropped, ← BitVec.toNat_inj, BitVec.toNat_ofNat, BitVec.toNat_ofNat, hlen]
  omega

lemma apart_iff : t.Apart ↔ t.reread = 0 := by
  simp [Apart, reread, List.countP_eq_zero]

lemma wasCopied_append (s : RingSys) (p : AcPeek) (n k : ℕ) :
    RingSys.wasCopied { s with copied := s.copied ++ p.events.zipIdx n } k =
      (s.wasCopied k || decide (n ≤ k ∧ k < n + p.events.length)) := by
  have hzip : (p.events.zipIdx n).any (·.2 = k) = decide (n ≤ k ∧ k < n + p.events.length) := by
    rw [Bool.eq_iff_iff, List.any_eq_true, decide_eq_true_iff]
    constructor
    · rintro ⟨⟨ev, j⟩, hmem, hj⟩
      obtain rfl : j = k := by simpa using hj
      obtain ⟨hle, hget⟩ := List.mk_mem_zipIdx_iff_le_and_getElem?_sub.mp hmem
      obtain ⟨hlt, -⟩ := List.getElem?_eq_some_iff.mp hget
      omega
    · rintro ⟨hle, hlt⟩
      refine ⟨(p.events[k - n], k), ?_, by simp⟩
      exact List.mk_mem_zipIdx_iff_le_and_getElem?_sub.mpr ⟨hle, List.getElem?_eq_getElem _⟩
  rw [RingSys.wasCopied, List.any_append, hzip]
  rfl

/-- What a step copies out. -/
def copies (t : RingLog) : RingAct → ℕ → Bool
  | .copy c true, k =>
    match t.sys.phase c with
    | .peeked p n => n ≤ k ∧ k < n + p.events.length
    | _ => false
  | _, _ => false

lemma wasCopied_step (h : t.sys.step a = some t'.sys) (k : ℕ) :
    t'.sys.wasCopied k = (t.sys.wasCopied k || t.copies a k) := by
  obtain ⟨now, e, rfl, hs'⟩ | ⟨rfl, hs'⟩ | ⟨c, rfl, -, -, hs'⟩ | ⟨c, rfl, -, hs'⟩ |
    ⟨c, p, n, rfl, hc, hs'⟩ | ⟨c, p, n, rfl, -, hs'⟩ | ⟨c, p, n, rfl, -, hs'⟩ :=
    RingSys.step_cases h
  case inr.inr.inr.inr.inl =>
    rw [hs', copies, hc]
    exact wasCopied_append t.sys p n k
  all_goals
    rw [hs']
    exact (Bool.or_false _).symm

/-- While no event was both evicted and copied out, the step that is not clean makes the first. -/
lemma apart_step_iff (hap : t.Apart) (h : t.step a = some t') : t'.Apart ↔ t.clean a = true := by
  obtain ⟨hsys, hev⟩ := step_eq_some.mp h
  have hsplit : t'.Apart ↔ (∀ k ∈ t.evicted, t.copies a k = false) ∧
      ∀ k ∈ t.sys.evicts a, (t.sys.wasCopied k || t.copies a k) = false := by
    simp only [Apart, hev, wasCopied_step hsys, List.forall_mem_append]
    refine and_congr_left fun _ => forall₂_congr fun k hk => ?_
    rw [hap k hk, Bool.false_or]
  rw [hsplit]
  cases a with
  | emit now e =>
    simp only [copies, clean, RingSys.evicts, Bool.or_false, implies_true, true_and]
    split_ifs with hfull
    · simp [Nat.not_lt.mpr hfull]
    · simp [Nat.not_le.mp hfull]
  | copy c ok =>
    cases ok with
    | false => simp [copies, clean, RingSys.evicts]
    | true =>
      simp only [copies, clean, RingSys.evicts]
      cases t.sys.phase c with
      | peeked p n => simp [imp_iff_or_not, or_comm]
      | idle => simp
      | locked => simp
      | copied p n => simp
  | _ => simp [copies, clean, RingSys.evicts]

/-- A peek has too few events to evict many of them. -/
lemma countP_copies_le (ht : t.Inv) (a : RingAct) :
    t.evicted.countP (t.copies a) ≤ acMaxEvents := by
  by_cases hc : ∃ c p n, a = .copy c true ∧ t.sys.phase c = .peeked p n
  · obtain ⟨c, p, n, rfl, hc⟩ := hc
    rw [List.countP_eq_length_filter]
    calc (t.evicted.filter (t.copies (.copy c true))).length
        ≤ (List.range' n p.events.length).length := by
          refine (List.Nodup.subperm (ht.nodup.filter _) fun k hk => ?_).length_le
          simpa [copies, hc, List.mem_range'_1] using (List.mem_filter.mp hk).2
      _ = p.events.length := List.length_range'
      _ ≤ acMaxEvents := ht.short c p n hc
  · have hnone : t.evicted.countP (t.copies a) = 0 := by
      rw [List.countP_eq_zero]
      intro k _ hk
      unfold copies at hk
      split at hk
      · next c =>
        split at hk
        · next p n hp => exact hc ⟨c, p, n, rfl, hp⟩
        · cases hk
      · cases hk
    omega

/-- One step adds fewer of them than `ac_dropped` can count. -/
lemma reread_step_le (ht : t.Inv) (hap : t.Apart) (h : t.step a = some t') :
    t'.reread ≤ acMaxEvents + 1 := by
  obtain ⟨hsys, hev⟩ := step_eq_some.mp h
  have hold : t.evicted.countP (t'.sys.wasCopied ·) = t.evicted.countP (t.copies a) := by
    refine List.countP_congr fun k hk => ?_
    rw [wasCopied_step hsys, hap k hk, Bool.false_or]
  have hnew : (t.sys.evicts a).length ≤ 1 := by
    cases a <;> simp only [RingSys.evicts, List.length_nil, Nat.zero_le]
    split_ifs <;> simp
  rw [reread, hev, List.countP_append, hold]
  exact Nat.add_le_add (countP_copies_le ht a) (List.countP_le_length.trans hnew)

lemma inv_apart_of_run {as : List RingAct} (h : run (restrict clean step) init as = some t) :
    t.Inv ∧ t.Apart := by
  refine run_invariant (P := fun t => t.Inv ∧ t.Apart) ?_ ⟨inv_init, fun k hk => nomatch hk⟩ h
  rintro t a t' ⟨ht, hap⟩ hst
  obtain ⟨hok, hst⟩ := restrict_eq_some.mp hst
  exact ⟨ht.step hst, (apart_step_iff hap hst).mpr hok⟩

/-- In every run in which no step evicts an event that was copied out or copies out one that was
evicted, `ac_dropped` is the number of events lost, modulo `2^32`; and the first other step makes
it wrong. -/
theorem dropped_eq_lost_iff (as : List RingAct) (t : RingLog)
    (h : run (restrict clean step) init as = some t) :
    t.Exact ∧ ∀ a t', t.step a = some t' → (t'.Exact ↔ t.clean a = true) := by
  obtain ⟨ht, hap⟩ := inv_apart_of_run h
  refine ⟨(exact_iff ht).mpr (by simp [apart_iff.mp hap]), fun a t' hst => ?_⟩
  have hle := reread_step_le ht hap hst
  rw [exact_iff (ht.step hst), ← apart_step_iff hap hst, apart_iff]
  simp only [acMaxEvents] at hle
  omega

/-- A full ring, one event too many, and one fetch. -/
def lostRun : List RingAct :=
  List.replicate 257 (.emit 0 ⟨.info, 0, "?", ""⟩) ++ [.lock 0, .peek 0, .copy 0 true, .commit 0]

lemma lostRun_isSome : (run (restrict clean step) init lostRun).isSome = true := by decide +kernel

theorem dropped_eq_lost_iff_lostRun :
    ((run (restrict clean step) init lostRun).get lostRun_isSome).Exact :=
  (dropped_eq_lost_iff lostRun _ (Option.some_get lostRun_isSome).symm).1

/-- A caller has copied out the oldest events of a full ring when one more is emitted. -/
def evictRun : List RingAct :=
  List.replicate 256 (.emit 0 ⟨.info, 0, "?", ""⟩) ++
    [.lock 0, .peek 0, .copy 0 true, .emit 0 ⟨.info, 0, "?", ""⟩, .commit 0]

/-- The event evicted then is counted as dropped although it was copied out. -/
theorem dropped_counts_copied : (run step init evictRun).any (fun t =>
    t.sys.ring.dropped = 1 && t.lost = 0 && t.evicted = [0] && t.sys.wasCopied 0) = true := by
  decide +kernel

end RingLog

end Anticheat
