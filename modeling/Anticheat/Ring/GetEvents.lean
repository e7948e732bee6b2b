import Anticheat.Lib.Run
import Anticheat.Ring.Properties

/-!
# Concurrent `GET_EVENTS`, `FLUSH_EVENTS` and `ac_emit`

Any number of callers run `AC_IOCTL_GET_EVENTS`: take `ac_get_events_lock`, peek, copy to user
space, and on success commit. Emits and flushes fall between any two of these steps.

Events are told apart by their emission number. The histories `emitted` and `copied` are not
part of the module; nothing reads them.
-/

namespace Anticheat

open Transition

/-- Where a `GET_EVENTS` caller stands. `first` is the emission number of the oldest event it
peeked. -/
inductive GetPhase where
  | idle
  | locked
  | peeked (p : AcPeek) (first : ℕ)
  | copied (p : AcPeek) (first : ℕ)

/-- The ring, the owner of `ac_get_events_lock`, the callers, and what was emitted and copied
out so far. -/
structure RingSys where
  ring : AcRing
  owner : Option ℕ
  phase : ℕ → GetPhase
  emitted : List AcEvent
  copied : List (AcEvent × ℕ)

def RingSys.init : RingSys where
  ring := AcRing.init
  owner := none
  phase := fun _ => .idle
  emitted := []
  copied := []

inductive RingAct where
  | emit (now : BitVec 64) (e : AcEmit)
  | flush
  | lock (c : ℕ)
  | peek (c : ℕ)
  | copy (c : ℕ) (ok : Bool)
  | commit (c : ℕ)

/-- The emission number of the oldest stored event. -/
def RingSys.oldest (s : RingSys) : ℕ := s.emitted.length - s.ring.count

/-- Event number `k` is in the ring. -/
def RingSys.Stored (s : RingSys) (k : ℕ) : Prop := s.oldest ≤ k ∧ k < s.emitted.length

def RingSys.step (s : RingSys) : RingAct → Option RingSys
  | .emit now e =>
    some { s with ring := acEmit now e s.ring, emitted := s.emitted ++ [e.toEvent now] }
  | .flush => some { s with ring := (acDrainEvents false s.ring).1 }
  | .lock c =>
    match s.owner, s.phase c with
    | none, .idle => some { s with owner := some c, phase := Function.update s.phase c .locked }
    | _, _ => none
  | .peek c =>
    match s.phase c with
    | .locked =>
      some { s with phase := Function.update s.phase c (.peeked (acPeekEvents s.ring) s.oldest) }
    | _ => none
  | .copy c ok =>
    match s.phase c with
    | .peeked p first =>
      if ok then
        some { s with
          phase := Function.update s.phase c (.copied p first)
          copied := s.copied ++ p.events.zipIdx first }
      else
        -- `-EFAULT`: the mutex is released and the ring is left as it is
        some { s with owner := none, phase := Function.update s.phase c .idle }
    | _ => none
  | .commit c =>
    match s.phase c with
    | .copied p _ =>
      some { s with
        ring := acCommitEvents p.events.length p.removedBefore s.ring
        owner := none
        phase := Function.update s.phase c .idle }
    | _ => none

/-! ### The invariant -/

/-- A peek result `p` taken when the oldest stored event had number `n`. -/
structure RingSys.PeekOk (s : RingSys) (p : AcPeek) (n : ℕ) : Prop where
  le_oldest : n ≤ s.oldest
  removed : p.removedBefore = BitVec.ofNat 64 n
  length_le : n + p.events.length ≤ s.emitted.length
  events : p.events = (s.emitted.drop n).take p.events.length

structure RingSys.Inv (s : RingSys) : Prop where
  numbered : s.ring.Numbered s.emitted
  owner : ∀ c, s.phase c ≠ .idle → s.owner = some c
  peeked : ∀ c p n, s.phase c = .peeked p n → s.PeekOk p n
  copied : ∀ c p n, s.phase c = .copied p n → s.PeekOk p n
  kept : ∀ c p n, s.phase c = .copied p n → p.events.zipIdx n ⊆ s.copied

variable {s s' : RingSys}

lemma RingSys.Inv.init : RingSys.init.Inv where
  numbered := AcRing.numbered_init
  owner := fun _ h => absurd rfl h
  peeked := fun _ _ _ h => nomatch h
  copied := fun _ _ _ h => nomatch h
  kept := fun _ _ _ h => nomatch h

/-- A peek result stays valid while events are emitted and removed. -/
lemma RingSys.PeekOk.mono {p : AcPeek} {n : ℕ} (h : s.PeekOk p n) (hold : s.oldest ≤ s'.oldest)
    (hpre : s.emitted <+: s'.emitted) : s'.PeekOk p n where
  le_oldest := h.le_oldest.trans hold
  removed := h.removed
  length_le := h.length_le.trans hpre.length_le
  events := by
    obtain ⟨t, ht⟩ := hpre
    have hn := h.length_le
    rw [← ht, List.drop_append_of_le_length (by omega), List.take_append_of_le_length]
    · exact h.events
    · rw [List.length_drop]
      omega

lemma RingSys.oldest_emit (h : s.ring.Numbered s.emitted) (now : BitVec 64) (e : AcEmit) :
    RingSys.oldest { s with
      ring := acEmit now e s.ring, emitted := s.emitted ++ [e.toEvent now] }
        = if s.ring.count = acRingSize then s.oldest + 1 else s.oldest := by
  have hle := h.count_le
  have hcap := h.wf.count_le
  simp only [RingSys.oldest, acEmit_count h, List.length_append, List.length_singleton]
  split_ifs <;> omega

lemma RingSys.oldest_advance (h : s.ring.Numbered s.emitted) {k : ℕ} (hk : k ≤ s.ring.count) :
    RingSys.oldest { s with ring := s.ring.advance k } = s.oldest + k := by
  have hle := h.count_le
  simp only [RingSys.oldest, AcRing.advance_count]
  omega

/-- What a step can do, action by action. -/
lemma RingSys.step_cases {a : RingAct} (h : s.step a = some s') :
    (∃ now e, a = .emit now e ∧
      s' = { s with ring := acEmit now e s.ring, emitted := s.emitted ++ [e.toEvent now] }) ∨
    (a = .flush ∧ s' = { s with ring := (acDrainEvents false s.ring).1 }) ∨
    (∃ c, a = .lock c ∧ s.owner = none ∧ s.phase c = .idle ∧
      s' = { s with owner := some c, phase := Function.update s.phase c .locked }) ∨
    (∃ c, a = .peek c ∧ s.phase c = .locked ∧
      s' = { s with
        phase := Function.update s.phase c (.peeked (acPeekEvents s.ring) s.oldest) }) ∨
    (∃ c p n, a = .copy c true ∧ s.phase c = .peeked p n ∧
      s' = { s with
        phase := Function.update s.phase c (.copied p n)
        copied := s.copied ++ p.events.zipIdx n }) ∨
    (∃ c p n, a = .copy c false ∧ s.phase c = .peeked p n ∧
      s' = { s with owner := none, phase := Function.update s.phase c .idle }) ∨
    (∃ c p n, a = .commit c ∧ s.phase c = .copied p n ∧
      s' = { s with
        ring := acCommitEvents p.events.length p.removedBefore s.ring
        owner := none
        phase := Function.update s.phase c .idle }) := by
  cases a with
  | emit now e => exact .inl ⟨now, e, rfl, (Option.some.inj h).symm⟩
  | flush => exact .inr (.inl ⟨rfl, (Option.some.inj h).symm⟩)
  | lock c =>
    simp only [RingSys.step] at h
    split at h
    · next ho hp => exact .inr (.inr (.inl ⟨c, rfl, ho, hp, (Option.some.inj h).symm⟩))
    · cases h
  | peek c =>
    simp only [RingSys.step] at h
    split at h
    · next hp => exact .inr (.inr (.inr (.inl ⟨c, rfl, hp, (Option.some.inj h).symm⟩)))
    · cases h
  | copy c ok =>
    simp only [RingSys.step] at h
    split at h
    · next p n hp =>
      cases ok with
      | true =>
        exact .inr (.inr (.inr (.inr (.inl ⟨c, p, n, rfl, hp, (Option.some.inj h).symm⟩))))
      | false =>
        exact .inr (.inr (.inr (.inr (.inr (.inl ⟨c, p, n, rfl, hp, (Option.some.inj h).symm⟩)))))
    · cases h
  | commit c =>
    simp only [RingSys.step] at h
    split at h
    · next p n hp =>
      exact .inr (.inr (.inr (.inr (.inr (.inr ⟨c, p, n, rfl, hp, (Option.some.inj h).symm⟩)))))
    · cases h

/-- The oldest stored number never goes back and the emission sequence only grows. -/
lemma RingSys.step_mono {a : RingAct} (hs : s.Inv) (h : s.step a = some s') :
    s.oldest ≤ s'.oldest ∧ s.emitted <+: s'.emitted := by
  obtain ⟨now, e, -, rfl⟩ | ⟨-, rfl⟩ | ⟨c, -, -, -, rfl⟩ | ⟨c, -, -, rfl⟩ | ⟨c, p, n, -, -, rfl⟩ |
    ⟨c, p, n, -, -, rfl⟩ | ⟨c, p, n, -, -, rfl⟩ := RingSys.step_cases h
  · refine ⟨?_, List.prefix_append _ _⟩
    rw [RingSys.oldest_emit hs.numbered]
    split_ifs <;> omega
  · refine ⟨?_, List.prefix_rfl⟩
    rw [acDrainEvents_null hs.numbered, RingSys.oldest_advance hs.numbered (Nat.le_refl _)]
    omega
  · exact ⟨Nat.le_refl _, List.prefix_rfl⟩
  · exact ⟨Nat.le_refl _, List.prefix_rfl⟩
  · exact ⟨Nat.le_refl _, List.prefix_rfl⟩
  · exact ⟨Nat.le_refl _, List.prefix_rfl⟩
  · refine ⟨?_, List.prefix_rfl⟩
    have hle := acToRemove_le p.events.length p.removedBefore s.ring
    have := RingSys.oldest_advance hs.numbered hle
    simp only [RingSys.oldest, acCommitEvents_eq] at this ⊢
    omega

lemma RingSys.numbered_step {a : RingAct} (hs : s.ring.Numbered s.emitted)
    (h : s.step a = some s') : s'.ring.Numbered s'.emitted := by
  obtain ⟨now, e, -, rfl⟩ | ⟨-, rfl⟩ | ⟨c, -, -, -, rfl⟩ | ⟨c, -, -, rfl⟩ | ⟨c, p, n, -, -, rfl⟩ |
    ⟨c, p, n, -, -, rfl⟩ | ⟨c, p, n, -, -, rfl⟩ := RingSys.step_cases h
  · exact hs.emit
  · simp only [acDrainEvents_null hs]
    exact hs.advance (Nat.le_refl _)
  · exact hs
  · exact hs
  · exact hs
  · exact hs
  · exact hs.commit _ _

/-- A fresh peek is valid for the state it was taken in. -/
lemma RingSys.peekOk_acPeekEvents (hs : s.ring.Numbered s.emitted) :
    s.PeekOk (acPeekEvents s.ring) s.oldest := by
  have hlen := length_acPeekEvents hs
  have hle := hs.count_le
  refine ⟨Nat.le_refl _, hs.removed, ?_, ?_⟩
  · rw [hlen, RingSys.oldest]
    omega
  · rw [hlen]
    exact acPeekEvents_events hs

/-- The mutex keeps every caller but the owner out. -/
lemma RingSys.Inv.others_idle (hs : s.Inv) {c d : ℕ} (hc : s.owner = none ∨ s.owner = some c)
    (hd : d ≠ c) : s.phase d = .idle := by
  by_contra hne
  have hown := hs.owner d hne
  rcases hc with hc | hc <;> rw [hown] at hc
  · cases hc
  · exact hd (Option.some.inj hc)

/-- Only the caller that moved can be under way. -/
lemma RingSys.Inv.eq_of_update (hs : s.Inv) {c : ℕ} {ph : GetPhase}
    (hc : s.owner = none ∨ s.owner = some c) (hphase : s'.phase = Function.update s.phase c ph)
    (d : ℕ) (hd : s'.phase d ≠ .idle) : d = c := by
  by_contra hdc
  rw [hphase, Function.update_of_ne hdc, hs.others_idle hc hdc] at hd
  exact hd rfl

/-- Moving the one caller that is allowed to move to phase `ph` keeps the invariant. -/
lemma RingSys.Inv.of_phase (hs : s.Inv) {c : ℕ} {ph : GetPhase}
    (hc : s.owner = none ∨ s.owner = some c) (hnum : s'.ring.Numbered s'.emitted)
    (hphase : s'.phase = Function.update s.phase c ph) (hown : ph ≠ .idle → s'.owner = some c)
    (hpeek : ∀ p n, ph = .peeked p n ∨ ph = .copied p n → s'.PeekOk p n)
    (hkept : ∀ p n, ph = .copied p n → p.events.zipIdx n ⊆ s'.copied) : s'.Inv := by
  have hself : s'.phase c = ph := by
    rw [hphase, Function.update_self]
  have hother := hs.eq_of_update hc hphase
  refine ⟨hnum, fun d hd => ?_, fun d p n hp => ?_, fun d p n hp => ?_, fun d p n hp => ?_⟩
  · obtain rfl := hother d hd
    exact hown (hself ▸ hd)
  · obtain rfl := hother d (by simp [hp])
    exact hpeek p n (.inl (hself.symm.trans hp))
  · obtain rfl := hother d (by simp [hp])
    exact hpeek p n (.inr (hself.symm.trans hp))
  · obtain rfl := hother d (by simp [hp])
    exact hkept p n (hself.symm.trans hp)

lemma RingSys.Inv.step {a : RingAct} (hs : s.Inv) (h : s.step a = some s') : s'.Inv := by
  obtain ⟨hold, hpre⟩ := RingSys.step_mono hs h
  have hnum := RingSys.numbered_step hs.numbered h
  have howner : ∀ c, s.phase c ≠ .idle → s.owner = none ∨ s.owner = some c :=
    fun c hc => .inr (hs.owner c hc)
  obtain ⟨now, e, -, rfl⟩ | ⟨-, rfl⟩ | ⟨c, -, ho, -, rfl⟩ | ⟨c, -, hc, rfl⟩ |
    ⟨c, p, n, -, hc, rfl⟩ | ⟨c, p, n, -, hc, rfl⟩ | ⟨c, p, n, -, hc, rfl⟩ := RingSys.step_cases h
  · exact ⟨hnum, hs.owner, fun c p n hp => (hs.peeked c p n hp).mono hold hpre,
      fun c p n hp => (hs.copied c p n hp).mono hold hpre, hs.kept⟩
  · exact ⟨hnum, hs.owner, fun c p n hp => (hs.peeked c p n hp).mono hold hpre,
      fun c p n hp => (hs.copied c p n hp).mono hold hpre, hs.kept⟩
  · exact hs.of_phase (.inl ho) hnum rfl (fun _ => rfl) (by simp) (by simp)
  · refine hs.of_phase (howner c (by simp [hc])) hnum rfl
      (fun _ => hs.owner c (by simp [hc])) ?_ (by simp)
    rintro p n (hp | hp)
    · cases hp
      exact RingSys.peekOk_acPeekEvents hs.numbered
    · cases hp
  · refine hs.of_phase (howner c (by simp [hc])) hnum rfl
      (fun _ => hs.owner c (by simp [hc])) ?_ ?_
    · rintro q m (hp | hp)
      · cases hp
      · cases hp
        exact (hs.peeked c p n hc).mono hold hpre
    · rintro q m hp
      cases hp
      exact List.subset_append_right _ _
  · exact hs.of_phase (howner c (by simp [hc])) hnum rfl (fun h => absurd rfl h) (by simp) (by simp)
  · exact hs.of_phase (howner c (by simp [hc])) hnum rfl (fun h => absurd rfl h) (by simp) (by simp)

lemma RingSys.inv_of_run {as : List RingAct} (h : run RingSys.step RingSys.init as = some s) :
    s.Inv :=
  run_invariant (fun _ _ _ hs hst => RingSys.Inv.step hs hst) RingSys.Inv.init h

/-! ### What a commit removes -/

/-- A step is within the range of the 64-bit removal counter: the events removed between a peek
and its commit are fewer than `2^64`. -/
def RingSys.unwrapped (s : RingSys) : RingAct → Bool
  | .commit c =>
    match s.phase c with
    | .copied _ n => s.oldest - n < 2 ^ 64
    | _ => true
  | _ => true

/-- Within that range, a commit removes just those of its own entries that are still stored. -/
lemma RingSys.acToRemove_eq {p : AcPeek} {n : ℕ} (hs : s.Inv) (hp : s.PeekOk p n)
    (hwrap : s.oldest - n < 2 ^ 64) :
    acToRemove p.events.length p.removedBefore s.ring
      = n + p.events.length - s.oldest := by
  have hle := hp.le_oldest
  have hlen := hp.length_le
  have hcount := hs.numbered.count_le
  have hsince : (s.ring.removed - p.removedBefore).toNat = s.oldest - n := by
    rw [hs.numbered.removed, hp.removed, ← RingSys.oldest]
    obtain ⟨d, hd⟩ := Nat.exists_eq_add_of_le hle
    rw [hd, BitVec.ofNat_add, BitVec.add_comm, BitVec.add_sub_cancel, BitVec.toNat_ofNat]
    rw [Nat.mod_eq_of_lt (by omega)]
    omega
  have hsum : s.oldest + s.ring.count = s.emitted.length := by
    simp only [RingSys.oldest]
    omega
  simp only [acToRemove, hsince]
  split <;> omega

/-! ### Delivery -/

/-- What was copied out is a subsequence of the first `b` emitted events, where no later peek
sees an event below `b`. -/
structure RingSys.DeliveredTo (s : RingSys) (b : ℕ) : Prop where
  sub : s.copied.Sublist (s.emitted.zipIdx.take b)
  peeked : ∀ c p n, s.phase c = .peeked p n → b ≤ n
  copied : ∀ c p n, s.phase c = .copied p n → b ≤ n + p.events.length
  rest : (∀ c p n, s.phase c ≠ .copied p n) → b ≤ s.oldest

lemma take_zipIdx_mono {α : Type*} {l l' : List α} {m m' : ℕ} (hpre : l <+: l') (hm : m ≤ m') :
    (l.zipIdx.take m).Sublist (l'.zipIdx.take m') := by
  obtain ⟨t, rfl⟩ := hpre
  rw [List.zipIdx_append, List.take_append]
  exact (List.take_sublist_take_left hm).trans (List.sublist_append_left _ _)

lemma zipIdx_take_drop {α : Type*} (l : List α) (n k : ℕ) :
    ((l.drop n).take k).zipIdx n = (l.zipIdx.drop n).take k := by
  apply List.ext_getElem
  · simp
  · intro i _ _
    simp

lemma RingSys.DeliveredTo.init : RingSys.init.DeliveredTo 0 where
  sub := List.Sublist.slnil
  peeked := fun _ _ _ h => nomatch h
  copied := fun _ _ _ h => nomatch h
  rest := fun _ => Nat.zero_le _

/-- The bound for a caller that moves to phase `ph`, all others being idle. -/
lemma RingSys.DeliveredTo.of_phase (hs : s.Inv) {c b : ℕ} {ph : GetPhase}
    (hc : s.owner = none ∨ s.owner = some c) (hphase : s'.phase = Function.update s.phase c ph)
    (hsub : s'.copied.Sublist (s'.emitted.zipIdx.take b))
    (hpeeked : ∀ p n, ph = .peeked p n → b ≤ n)
    (hcopied : ∀ p n, ph = .copied p n → b ≤ n + p.events.length)
    (hrest : (∀ p n, ph ≠ .copied p n) → b ≤ s'.oldest) : s'.DeliveredTo b := by
  have hself : s'.phase c = ph := by
    rw [hphase, Function.update_self]
  have hother := hs.eq_of_update hc hphase
  refine ⟨hsub, fun d p n hp => ?_, fun d p n hp => ?_, fun hn => hrest fun p n => ?_⟩
  · obtain rfl := hother d (by simp [hp])
    exact hpeeked p n (hself.symm.trans hp)
  · obtain rfl := hother d (by simp [hp])
    exact hcopied p n (hself.symm.trans hp)
  · exact hself ▸ hn c p n

/-- After a commit in range, the oldest stored number is past everything its peek returned. -/
lemma RingSys.le_oldest_commit {c : ℕ} {p : AcPeek} {n : ℕ} (hs : s.Inv)
    (hc : s.phase c = .copied p n) (hwrap : s.oldest - n < 2 ^ 64) :
    n + p.events.length ≤
      RingSys.oldest { s with ring := acCommitEvents p.events.length p.removedBefore s.ring } := by
  have hp := hs.copied c p n hc
  rw [acCommitEvents_eq, RingSys.oldest_advance hs.numbered (acToRemove_le _ _ _),
    RingSys.acToRemove_eq hs hp hwrap]
  omega

lemma RingSys.DeliveredTo.step {a : RingAct} {b : ℕ} (hs : s.Inv) (hd : s.DeliveredTo b)
    (hok : s.unwrapped a) (h : s.step a = some s') : ∃ b', s'.DeliveredTo b' := by
  obtain ⟨hold, hpre⟩ := RingSys.step_mono hs h
  have hsub := hd.sub.trans (take_zipIdx_mono hpre (Nat.le_refl b))
  have howner : ∀ c, s.phase c ≠ .idle → s.owner = none ∨ s.owner = some c :=
    fun c hc => .inr (hs.owner c hc)
  -- with an owner in phase `ph`, no caller is in another phase
  have honly : ∀ c, s.phase c ≠ .idle → (∀ p n, s.phase c ≠ .copied p n) →
      ∀ d p n, s.phase d ≠ .copied p n := by
    intro c hc hcc d p n hdc
    have hdi : s.phase d ≠ .idle := by simp [hdc]
    obtain rfl := Option.some.inj ((hs.owner d hdi).symm.trans (hs.owner c hc))
    exact hcc p n hdc
  obtain ⟨now, e, -, rfl⟩ | ⟨-, rfl⟩ | ⟨c, -, ho, hi, rfl⟩ | ⟨c, rfl, hc, rfl⟩ |
    ⟨c, p, n, rfl, hc, rfl⟩ | ⟨c, p, n, rfl, hc, rfl⟩ | ⟨c, p, n, rfl, hc, rfl⟩ :=
    RingSys.step_cases h
  · exact ⟨b, hsub, hd.peeked, hd.copied, fun hn => (hd.rest hn).trans hold⟩
  · exact ⟨b, hsub, hd.peeked, hd.copied, fun hn => (hd.rest hn).trans hold⟩
  · refine ⟨b, .of_phase hs (.inl ho) rfl hsub (by simp) (by simp) fun _ => hd.rest ?_⟩
    intro d p n hdc
    have hown := hs.owner d (by simp [hdc])
    rw [ho] at hown
    cases hown
  · have hb := hd.rest (honly c (by simp [hc]) (by simp [hc]))
    refine ⟨b, .of_phase hs (howner c (by simp [hc])) rfl hsub ?_ (by simp) fun _ => hb⟩
    rintro p n hp
    cases hp
    exact hb
  · -- the copied events follow everything delivered before
    have hpeek := hs.peeked c p n hc
    refine ⟨n + p.events.length, .of_phase hs (howner c (by simp [hc])) rfl ?_ (by simp)
      (by simp) (fun hn => absurd rfl (hn p n))⟩
    rw [List.take_add, ← zipIdx_take_drop, ← hpeek.events]
    refine List.Sublist.append (hd.sub.trans ?_) (List.Sublist.refl _)
    exact List.take_sublist_take_left (hd.peeked c p n hc)
  · have hb := hd.rest (honly c (by simp [hc]) (by simp [hc]))
    exact ⟨b, .of_phase hs (howner c (by simp [hc])) rfl hsub (by simp) (by simp) fun _ => hb⟩
  · have hwrap : s.oldest - n < 2 ^ 64 := by simpa [RingSys.unwrapped, hc] using hok
    have hb := (hd.copied c p n hc).trans (RingSys.le_oldest_commit hs hc hwrap)
    exact ⟨b, .of_phase hs (howner c (by simp [hc])) rfl hsub (by simp) (by simp) fun _ => hb⟩

lemma RingSys.deliveredTo_of_run {as : List RingAct}
    (h : run (restrict RingSys.unwrapped RingSys.step) RingSys.init as = some s) :
    s.Inv ∧ ∃ b, s.DeliveredTo b := by
  refine run_invariant (P := fun s => s.Inv ∧ ∃ b, s.DeliveredTo b) ?_
    ⟨RingSys.Inv.init, 0, RingSys.DeliveredTo.init⟩ h
  rintro s a s' ⟨hs, b, hd⟩ hst
  obtain ⟨hok, hst⟩ := restrict_eq_some.mp hst
  exact ⟨hs.step hst, hd.step hs hok hst⟩

/-- Event number `k` leaves the ring in the step from `s` to `s'`. -/
def RingSys.Leaves (s s' : RingSys) (k : ℕ) : Prop := s.Stored k ∧ ¬ s'.Stored k

lemma RingSys.leaves_emit {now : BitVec 64} {e : AcEmit} {k : ℕ} (hs : s.Inv)
    (h : s.step (.emit now e) = some s') (hk : s.Leaves s' k) :
    s.ring.count = acRingSize ∧ k = s.oldest ∧ s'.ring.dropped = s.ring.dropped + 1 := by
  obtain ⟨⟨hlo, hhi⟩, hout⟩ := hk
  cases h
  have hold := RingSys.oldest_emit hs.numbered now e
  have hfull : s.ring.count = acRingSize := by
    by_contra hne
    rw [if_neg hne] at hold
    exact hout ⟨hold.trans_le hlo, by simp; omega⟩
  rw [if_pos hfull] at hold
  refine ⟨hfull, ?_, ?_⟩
  · by_contra hne
    exact hout ⟨by rw [hold]; omega, by simp; omega⟩
  · rw [acEmit_of_full hfull]

/-- A commit in range lets go of nothing but what its own caller peeked and copied out. -/
lemma RingSys.leaves_commit {c k : ℕ} (hs : s.Inv) (hok : s.unwrapped (.commit c))
    (h : s.step (.commit c) = some s') (hk : s.Leaves s' k) :
    ∃ p n, s.phase c = .copied p n ∧ n ≤ k ∧ k < n + p.events.length ∧
      ∃ ev, (ev, k) ∈ s.copied := by
  obtain ⟨⟨hlo, hhi⟩, hout⟩ := hk
  simp only [RingSys.step] at h
  split at h
  · next p n hc =>
    cases h
    have hp := hs.copied c p n hc
    have hwrap : s.oldest - n < 2 ^ 64 := by simpa [RingSys.unwrapped, hc] using hok
    have hnk : n ≤ k := hp.le_oldest.trans hlo
    have hold := RingSys.oldest_advance hs.numbered
      (acToRemove_le p.events.length p.removedBefore s.ring)
    have hkn : k < n + p.events.length := by
      by_contra hge
      refine hout ⟨?_, hhi⟩
      change RingSys.oldest { s with ring := s.ring.advance _ } ≤ k
      rw [hold, RingSys.acToRemove_eq hs hp hwrap]
      omega
    obtain ⟨ev, hev⟩ : ∃ ev, p.events[k - n]? = some ev :=
      ⟨_, List.getElem?_eq_getElem (by omega)⟩
    refine ⟨p, n, hc, hnk, hkn, ev, hs.kept c p n hc ?_⟩
    exact List.mk_mem_zipIdx_iff_le_and_getElem?_sub.mpr ⟨hnk, hev⟩
  · cases h

/-- `GET_EVENTS` delivers every event at most once and in emission order, and nothing leaves the
ring unseen but through an eviction or a flush, in every run in which no commit comes `2^64`
removals after its peek. -/
theorem getEvents_delivery (as : List RingAct) (s : RingSys)
    (h : run (restrict RingSys.unwrapped RingSys.step) RingSys.init as = some s) :
    s.ring.contents acRingSize = s.emitted.drop s.oldest ∧
    s.copied.Sublist s.emitted.zipIdx ∧
    ∀ a s', restrict RingSys.unwrapped RingSys.step s a = some s' →
      (∀ k, s.Leaves s' k →
        (∃ now e, a = .emit now e ∧ s.ring.count = acRingSize ∧ k = s.oldest ∧
          s'.ring.dropped = s.ring.dropped + 1) ∨
        a = .flush ∨
        ∃ c p n, a = .commit c ∧ s.phase c = .copied p n ∧ n ≤ k ∧ k < n + p.events.length ∧
          ∃ ev, (ev, k) ∈ s.copied) ∧
      (∀ c, a = .copy c false → s'.ring = s.ring) := by
  obtain ⟨hs, b, hd⟩ := RingSys.deliveredTo_of_run h
  refine ⟨hs.numbered.contents, hd.sub.trans (List.take_sublist _ _), fun a s' hst => ?_⟩
  obtain ⟨hok, hst⟩ := restrict_eq_some.mp hst
  have hkeep := hst
  obtain ⟨now, e, rfl, -⟩ | ⟨rfl, -⟩ | ⟨c, rfl, -, -, rfl⟩ | ⟨c, rfl, -, rfl⟩ |
    ⟨c, p, n, rfl, -, rfl⟩ | ⟨c, p, n, rfl, -, rfl⟩ | ⟨c, p, n, rfl, -, -⟩ :=
    RingSys.step_cases hst
  · refine ⟨fun k hk => .inl ?_, by simp⟩
    obtain ⟨hfull, hold, hdrop⟩ := RingSys.leaves_emit hs hkeep hk
    exact ⟨now, e, rfl, hfull, hold, hdrop⟩
  · exact ⟨fun k _ => .inr (.inl rfl), by simp⟩
  · exact ⟨fun k hk => absurd hk.1 hk.2, by simp⟩
  · exact ⟨fun k hk => absurd hk.1 hk.2, by simp⟩
  · exact ⟨fun k hk => absurd hk.1 hk.2, by simp⟩
  · exact ⟨fun k hk => absurd hk.1 hk.2, fun _ _ => rfl⟩
  · refine ⟨fun k hk => .inr (.inr ?_), by simp⟩
    obtain ⟨q, m, hleave⟩ := RingSys.leaves_commit hs hok hkeep hk
    exact ⟨c, q, m, rfl, hleave⟩

/-- A caller has peeked two events when the ring is flushed and a third is emitted. The commit
leaves that one for the next call. -/
def fetchRun : List RingAct :=
  [.emit 0 ⟨.info, 0, "?", "a"⟩, .emit 0 ⟨.info, 0, "?", "b"⟩, .lock 0, .peek 0, .flush,
    .emit 0 ⟨.info, 0, "?", "c"⟩, .copy 0 true, .commit 0, .lock 1, .peek 1, .copy 1 true,
    .commit 1]

theorem getEvents_delivery_fetchRun :
    ∃ s, run (restrict RingSys.unwrapped RingSys.step) RingSys.init fetchRun = some s ∧
      s.copied.map Prod.snd = [0, 1, 2] ∧ s.copied.Sublist s.emitted.zipIdx :=
  ⟨_, rfl, rfl, (getEvents_delivery fetchRun _ rfl).2.1⟩

/-! ### Past the range of the counter -/

/-- `m` emits in a row only fill the ring. -/
lemma RingSys.run_emits (hs : s.Inv) (now : BitVec 64) (e : AcEmit) (m : ℕ) :
    ∃ t, run RingSys.step s (List.replicate m (.emit now e)) = some t ∧ t.Inv ∧
      t.phase = s.phase ∧ t.copied = s.copied ∧ t.emitted.length = s.emitted.length + m ∧
      t.ring.count = min (s.ring.count + m) acRingSize := by
  induction m generalizing s with
  | zero =>
    exact ⟨s, rfl, hs, rfl, rfl, rfl, (Nat.min_eq_left hs.numbered.wf.count_le).symm⟩
  | succ m ih =>
    have hst : s.step (.emit now e) = some _ := rfl
    obtain ⟨t, hrun, ht, hph, hco, hlen, hcount⟩ := ih (hs.step hst)
    refine ⟨t, run_cons_eq_some.mpr ⟨_, hst, hrun⟩, ht, hph, hco, ?_, ?_⟩
    · rw [hlen]
      simp
      omega
    · rw [hcount, acEmit_count hs.numbered]
      omega

/-- One caller peeks a single event and then sleeps in `copy_to_user` while `2^64 + 255` further
events are emitted. -/
def wrapRun (e : AcEmit) : List RingAct :=
  [.emit 0 e, .lock 0, .peek 0] ++ List.replicate (2 ^ 64 + 255) (.emit 0 e) ++ [.copy 0 true]

/-- The commit that ends `wrapRun` sees no removal since its peek and removes event number
`2^64`, which no peek returned. -/
theorem getEvents_commit_wraps :
    ∃ s s', run RingSys.step RingSys.init (wrapRun ⟨.info, 0, "?", ""⟩) = some s ∧
      s.step (.commit 0) = some s' ∧ s.Leaves s' (2 ^ 64) ∧
      ∃ p, s.phase 0 = .copied p 0 ∧ p.events.length = 1 ∧ ∀ ev, (ev, 2 ^ 64) ∉ s.copied := by
  obtain ⟨s₁, hrun₁, ⟨p, hp, hplen⟩, hco₁, hlen₁, hcount₁⟩ :
      ∃ s₁, run RingSys.step RingSys.init [.emit 0 ⟨.info, 0, "?", ""⟩, .lock 0, .peek 0]
          = some s₁ ∧ (∃ p, s₁.phase 0 = .peeked p 0 ∧ p.events.length = 1) ∧
        s₁.copied = [] ∧ s₁.emitted.length = 1 ∧ s₁.ring.count = 1 :=
    ⟨_, rfl, ⟨_, rfl, rfl⟩, rfl, rfl, rfl⟩
  have hs₁ := RingSys.inv_of_run hrun₁
  obtain ⟨s₂, hrun₂, hs₂, hph₂, hco₂, hlen₂, hcount₂⟩ :=
    RingSys.run_emits hs₁ 0 ⟨.info, 0, "?", ""⟩ (2 ^ 64 + 255)
  have hp₂ : s₂.phase 0 = .peeked p 0 := hph₂ ▸ hp
  have hst₃ : s₂.step (.copy 0 true) = some { s₂ with
      phase := Function.update s₂.phase 0 (.copied p 0)
      copied := s₂.copied ++ p.events.zipIdx 0 } := by
    simp [RingSys.step, hp₂]
  have hs₃ := hs₂.step hst₃
  generalize hs₃eq : ({ s₂ with
      phase := Function.update s₂.phase 0 (.copied p 0)
      copied := s₂.copied ++ p.events.zipIdx 0 } : RingSys) = s₃ at hst₃ hs₃
  have hp₃ : s₃.phase 0 = .copied p 0 := by
    simp [← hs₃eq]
  have hold₃ : s₃.oldest = 2 ^ 64 := by
    simp only [← hs₃eq, RingSys.oldest, hlen₂, hcount₂, hlen₁, hcount₁, acRingSize]
    omega
  have hstored : s₃.Stored (2 ^ 64) := by
    refine ⟨hold₃.le, ?_⟩
    rw [← hs₃eq, hlen₂, hlen₁]
    omega
  -- the counter has come back to the value the peek recorded
  have hremove : acToRemove p.events.length p.removedBefore s₃.ring = 1 := by
    have hzero : s₃.ring.removed - p.removedBefore = 0#64 := by
      rw [hs₃.numbered.removed, (hs₃.copied 0 p 0 hp₃).removed]
      change BitVec.ofNat 64 s₃.oldest - BitVec.ofNat 64 0 = 0#64
      rw [hold₃]
      rfl
    have hcount : s₃.ring.count = 256 := by
      rw [← hs₃eq, hcount₂, hcount₁]
      rfl
    simp [acToRemove, hzero, hplen, hcount]
  have hst₄ : s₃.step (.commit 0) = some { s₃ with
      ring := acCommitEvents p.events.length p.removedBefore s₃.ring
      owner := none
      phase := Function.update s₃.phase 0 .idle } := by
    simp [RingSys.step, hp₃]
  refine ⟨s₃, _, ?_, hst₄, ⟨hstored, fun h => ?_⟩, p, hp₃, hplen, ?_⟩
  · rw [wrapRun, run_append, run_append, hrun₁, Option.bind_some, hrun₂, Option.bind_some,
      run_cons_eq_some]
    exact ⟨s₃, hst₃, rfl⟩
  · have hadv := RingSys.oldest_advance hs₃.numbered (acToRemove_le p.events.length
      p.removedBefore s₃.ring)
    have hle : RingSys.oldest { s₃ with ring := s₃.ring.advance _ } ≤ 2 ^ 64 := h.1
    rw [hadv, hremove, hold₃] at hle
    omega
  · intro ev hev
    rw [← hs₃eq] at hev
    simp only [hco₂, hco₁, List.nil_append] at hev
    have := (List.mk_mem_zipIdx_iff_le_and_getElem?_sub.mp hev).2
    rw [List.getElem?_eq_none (by rw [hplen]; omega)] at this
    cases this

end Anticheat
