import Anticheat.Ring.Properties
import Anticheat.Syscalls.Monitor
import Mathlib.Data.Fintype.Card
import Mathlib.Data.List.Forall2

/-!
# The level-triggered report of hooked slots

A slot is settled when its event was drained or a level-triggered line was written after it was
found hooked. As long as no drain takes the event of a slot that such a line already counted,
`accounted` is at most the number of settled slots, so a slot whose event was evicted keeps the
excess above zero until a line is written.
-/

namespace Anticheat.Syscalls

open Transition

variable {n : ℕ} {m m' : Monitor n}

@[simp] lemma mark_apply (o : Option (Fin n)) (f : Fate) (fate : Fin n → Fate) (i : Fin n) :
    mark o f fate i = if o = some i then f else fate i := by
  cases o with
  | none => simp [mark]
  | some j => simp [mark, Function.update_apply, eq_comm]

lemma Monitor.push_since (m : Monitor n) (x : Push n) (i : Fin n) :
    (m.push x).since i = if x.slot = some i then some m.daemon.log.length else m.since i := by
  simp only [push]
  cases x.slot with
  | none => simp
  | some j => simp [Function.update_apply, eq_comm]

lemma Monitor.push_fate (m : Monitor n) (x : Push n) (i : Fin n) : (m.push x).fate i =
    if x.slot = some i then .queued else if m.oldest = some i then .evicted 0 else m.fate i := by
  simp only [push, mark_apply]

/-! ### The ring and its histories -/

/-- The tags are those of the entries in the ring, and a slot has a tag there exactly while its
event is queued. -/
structure Monitor.Tagged (m : Monitor n) : Prop where
  numbered : ∃ es, m.ring.Numbered es
  lockstep : List.Forall₂ (fun t ev => t.isSome = true ↔ ev.type = .syscallHook) m.tags
    (m.ring.toRingBuffer.contents acRingSize)
  nodup : (m.tags.filterMap id).Nodup
  queued : ∀ i, some i ∈ m.tags ↔ m.fate i = .queued
  since : ∀ i, m.since i = none ↔ m.fate i = .fresh
  since_le : ∀ i k, m.since i = some k → k ≤ m.daemon.log.length

namespace Monitor.Tagged

lemma length_tags (hm : m.Tagged) : m.tags.length = m.ring.count := by
  rw [hm.lockstep.length_eq, RingBuffer.length_contents]

/-- An emit evicts a queued event. -/
lemma fate_oldest (hm : m.Tagged) {i : Fin n} (hi : m.oldest = some i) : m.fate i = .queued := by
  rw [← hm.queued]
  unfold oldest at hi
  split_ifs at hi
  cases htags : m.tags with
  | nil => simp [htags] at hi
  | cons t ts =>
    rw [htags] at hi
    have ht : t = some i := by simpa using hi
    simp [ht]

/-- The tags that an emit leaves of those before it. -/
lemma mem_tail_iff (hm : m.Tagged) (i : Fin n) :
    some i ∈ (if acRingSize ≤ m.tags.length then m.tags.tail else m.tags) ↔
      some i ∈ m.tags ∧ m.oldest ≠ some i := by
  unfold oldest
  split_ifs with hfull
  · cases htags : m.tags with
    | nil => simp
    | cons t ts =>
      have hnodup := hm.nodup
      rw [htags] at hnodup
      cases t with
      | none => simp
      | some j =>
        have hj : some j ∉ ts := by
          intro hmem
          have hnot := (List.nodup_cons.mp hnodup).1
          exact hnot (List.mem_filterMap.mpr ⟨some j, hmem, rfl⟩)
        rcases eq_or_ne j i with rfl | hne
        · simp [hj]
        · simp [hne, hne.symm]
  · simp

lemma push (hm : m.Tagged) {x : Push n} (hx : x.wf = true)
    (hfresh : ∀ i, x.slot = some i → m.fate i = .fresh) : (m.push x).Tagged := by
  obtain ⟨es, hes⟩ := hm.numbered
  have hnot : ∀ i, x.slot = some i → some i ∉ m.tags := by
    intro i hi hmem
    have := (hm.queued i).mp hmem
    rw [hfresh i hi] at this
    cases this
  have hold : ∀ i, x.slot = some i → m.oldest ≠ some i := by
    intro i hi ho
    have := hm.fate_oldest ho
    rw [hfresh i hi] at this
    cases this
  refine ⟨⟨_, hes.emit⟩, ?_, ?_, fun i => ?_, fun i => ?_, fun i k hk => ?_⟩
  · simp only [Monitor.push]
    rw [contents_acEmit hes, hm.length_tags]
    refine List.rel_append ?_ (.cons ?_ .nil)
    · split_ifs
      · rw [← List.drop_one, ← List.drop_one]
        exact List.forall₂_drop 1 hm.lockstep
      · exact hm.lockstep
    · rw [Push.wf, decide_eq_true_iff] at hx
      simp [hx, AcEmit.toEvent]
  · have hsub : (if acRingSize ≤ m.tags.length then m.tags.tail else m.tags).Sublist m.tags := by
      split_ifs
      · exact List.tail_sublist _
      · exact List.Sublist.refl _
    simp only [Monitor.push, List.filterMap_append]
    refine List.nodup_append.mpr ⟨(hsub.filterMap id).nodup hm.nodup, ?_, ?_⟩
    · cases x.slot <;> simp
    · intro i hi j hj hij
      subst hij
      have hslot : some i = x.slot := by simpa using hj
      refine hnot i hslot.symm (hsub.subset ?_)
      simpa using hi
  · simp only [Monitor.push, List.mem_append, List.mem_singleton, hm.mem_tail_iff, mark_apply,
      hm.queued]
    by_cases hi : x.slot = some i
    · simp [hi]
    · by_cases ho : m.oldest = some i <;> simp [hi, Ne.symm hi, ho]
  · rw [push_since, push_fate]
    by_cases hi : x.slot = some i
    · simp [hi]
    · by_cases ho : m.oldest = some i
      · simp [hi, ho, hm.since, hm.fate_oldest ho]
      · simp [hi, ho, hm.since]
  · rw [push_since] at hk
    split_ifs at hk
    · exact (Option.some.inj hk).ge
    · exact hm.since_le i k hk

end Monitor.Tagged

/-- What happens to a slot while events are emitted, `new` when its own is among them. -/
inductive FateMove (new : Prop) : Fate → Fate → Prop where
  | stay {f : Fate} (h : new → f ≠ .fresh) : FateMove new f f
  | evict : FateMove new .queued (.evicted 0)
  | queue (h : new) : FateMove new .fresh .queued
  | pass (h : new) : FateMove new .fresh (.evicted 0)

section FateMove

variable {new : Prop} {f f' : Fate}

lemma FateMove.ne_fresh_iff (h : FateMove new f f') : f' ≠ .fresh ↔ f ≠ .fresh ∨ new := by
  cases h with
  | stay h => exact ⟨.inl, Or.rec id h⟩
  | evict => simp
  | queue h => simp [h]
  | pass h => simp [h]

lemma FateMove.logged_iff (h : FateMove new f f') : f' = .logged ↔ f = .logged := by
  cases h <;> simp

/-- What is evicted now has no check behind it. -/
lemma FateMove.of_evicted_succ {c : ℕ} (h : FateMove new f (.evicted (c + 1))) :
    f = .evicted (c + 1) := by
  cases h
  rfl

end FateMove

/-- `m'` is `m` after emits, those of hook events for the slots in `slots`. -/
structure Pushed (slots : List (Fin n)) (m m' : Monitor n) : Prop where
  table : m'.table = m.table
  daemon : m'.daemon = m.daemon
  reported : ∀ i, m'.reported i = m.reported i
  fate : ∀ i, FateMove (i ∈ slots) (m.fate i) (m'.fate i)

lemma pushed_push (hm : m.Tagged) {x : Push n}
    (hfresh : ∀ i, x.slot = some i → m.fate i = .fresh) :
    Pushed x.slot.toList m (m.push x) := by
  refine ⟨rfl, rfl, fun i => ?_, fun i => ?_⟩
  · unfold Monitor.reported
    rw [Monitor.push_since]
    split_ifs with hi
    · have hnone := (hm.since i).mpr (hfresh i hi)
      simp [hnone, Monitor.push]
    · rfl
  · rw [Monitor.push_fate]
    split_ifs with hi ho
    · rw [hfresh i hi]
      exact .queue (by simp [hi])
    · rw [hm.fate_oldest ho]
      exact .evict
    · exact .stay (by simp [hi])

lemma FateMove.trans {p q : Prop} {f g h : Fate} (h₁ : FateMove p f g) (h₂ : FateMove q g h) :
    FateMove (p ∨ q) f h := by
  cases h₁ with
  | stay h₁ =>
    cases h₂ with
    | stay h₂ => exact .stay (Or.rec h₁ h₂)
    | evict => exact .evict
    | queue hq => exact .queue (.inr hq)
    | pass hq => exact .pass (.inr hq)
  | evict =>
    cases h₂
    exact .evict
  | queue hp =>
    cases h₂ with
    | stay => exact .queue (.inl hp)
    | evict => exact .pass (.inl hp)
  | pass hp =>
    cases h₂
    exact .pass (.inl hp)

lemma Pushed.trans {l l' : List (Fin n)} {m₁ m₂ m₃ : Monitor n} (h : Pushed l m₁ m₂)
    (h' : Pushed l' m₂ m₃) : Pushed (l ++ l') m₁ m₃ := by
  refine ⟨h'.table.trans h.table, h'.daemon.trans h.daemon,
    fun i => (h'.reported i).trans (h.reported i), fun i => ?_⟩
  rw [List.mem_append]
  exact (h.fate i).trans (h'.fate i)

/-- A sequence of emits, with the hook events of slots that had none. -/
lemma pushed_pushAll {xs : List (Push n)} (hm : m.Tagged) (hwf : ∀ x ∈ xs, x.wf = true)
    (hnodup : (xs.filterMap Push.slot).Nodup)
    (hfresh : ∀ i ∈ xs.filterMap Push.slot, m.fate i = .fresh) :
    (m.pushAll xs).Tagged ∧ Pushed (xs.filterMap Push.slot) m (m.pushAll xs) := by
  induction xs generalizing m with
  | nil =>
    exact ⟨hm, rfl, rfl, fun _ => rfl, fun i => .stay fun h => absurd h (List.not_mem_nil)⟩
  | cons x xs ih =>
    have hslots : (x :: xs).filterMap Push.slot = x.slot.toList ++ xs.filterMap Push.slot := by
      cases hx : x.slot <;> simp [hx]
    rw [hslots] at hnodup hfresh ⊢
    obtain ⟨-, hnodup', hdisj⟩ := List.nodup_append.mp hnodup
    have hx : ∀ i, x.slot = some i → m.fate i = .fresh := fun i hi =>
      hfresh i (List.mem_append_left _ (by simp [hi]))
    have hpush := pushed_push hm hx
    have hrest : ∀ i ∈ xs.filterMap Push.slot, (m.push x).fate i = .fresh := by
      intro i hi
      have hf := hpush.fate i
      rw [hfresh i (List.mem_append_right _ hi)] at hf
      have hnot : i ∉ x.slot.toList := fun h => hdisj i h i hi rfl
      revert hf
      generalize (m.push x).fate i = f
      intro hf
      cases hf with
      | stay => rfl
      | queue h => exact absurd h hnot
      | pass h => exact absurd h hnot
    obtain ⟨htag, hp⟩ := ih (hm.push (hwf x List.mem_cons_self) hx)
      (fun y hy => hwf y (List.mem_cons_of_mem _ hy)) hnodup' hrest
    exact ⟨htag, hpush.trans hp⟩

/-! ### The drain -/

@[simp] lemma eventLine_kind (e : AcEvent) : (eventLine e).kind = .event := by
  unfold eventLine
  split_ifs <;> rfl

lemma Daemon.foldl_event (evs : List AcEvent) (d : Daemon) :
    (evs.foldl Daemon.event d).hookLevel = ⟨d.hookLevel.accounted +
        evs.countP fun e => e.type = .syscallHook, d.hookLevel.prevExcess⟩ ∧
      (evs.foldl Daemon.event d).log = d.log ++ evs.map eventLine := by
  induction evs generalizing d with
  | nil => exact ⟨rfl, by simp⟩
  | cons e evs ih =>
    have hev : (d.event e).hookLevel = ⟨d.hookLevel.accounted +
        if e.type = .syscallHook then 1 else 0, d.hookLevel.prevExcess⟩ ∧
        (d.event e).log = d.log ++ [eventLine e] := by
      unfold Daemon.event
      split_ifs <;> exact ⟨rfl, rfl⟩
    obtain ⟨hlevel, hlog⟩ := ih (d.event e)
    rw [List.foldl_cons, hlevel, hlog, hev.1, hev.2]
    simp [List.countP_cons, Nat.add_assoc, Nat.add_comm]

lemma foldl_update_logged (l : List (Fin n)) (f : Fin n → Fate) (i : Fin n) :
    l.foldl (fun fate i => Function.update fate i .logged) f i =
      if i ∈ l then .logged else f i := by
  induction l generalizing f with
  | nil => simp
  | cons j l ih =>
    rw [List.foldl_cons, ih, Function.update_apply]
    by_cases hl : i ∈ l <;> by_cases hj : i = j <;> simp [hl, hj]

lemma Monitor.drain_log (m : Monitor n) :
    m.drain.daemon.log = m.daemon.log ++ (acPeekEvents m.ring).events.map eventLine :=
  (Daemon.foldl_event _ _).2

/-- Lines that are added count for the slots already found hooked. -/
lemma Monitor.Tagged.reported_append (hm : m.Tagged) {ls : List LogLine}
    (hsince : m'.since = m.since) (hlog : m'.daemon.log = m.daemon.log ++ ls) (i : Fin n) :
    m'.reported i = (m.reported i ||
      ((m.since i).isSome && ls.any fun l => l.kind = .stillHooked)) := by
  unfold Monitor.reported
  rw [hsince, hlog]
  cases hk : m.since i with
  | none => rfl
  | some k =>
    simp only [List.drop_append_of_le_length (hm.since_le i k hk), List.any_append,
      Option.isSome_some, Bool.true_and]

namespace Monitor.Tagged

lemma mem_drainedSlots (i : Fin n) : i ∈ m.drainedSlots ↔ some i ∈ m.tags.take m.drained := by
  simp [drainedSlots]

/-- What a drain takes is no longer in the ring. -/
lemma mem_drop_iff (hm : m.Tagged) (i : Fin n) :
    some i ∈ m.tags.drop m.drained ↔ some i ∈ m.tags ∧ i ∉ m.drainedSlots := by
  have hnodup := hm.nodup
  rw [← List.take_append_drop m.drained m.tags, List.filterMap_append] at hnodup
  obtain ⟨-, -, hdisj⟩ := List.nodup_append.mp hnodup
  constructor
  · intro hdrop
    refine ⟨List.mem_of_mem_drop hdrop, fun htake => ?_⟩
    exact hdisj i htake i (List.mem_filterMap.mpr ⟨some i, hdrop, rfl⟩) rfl
  · rintro ⟨hmem, hnot⟩
    rw [← List.take_append_drop m.drained m.tags, List.mem_append] at hmem
    exact hmem.resolve_left fun h => hnot ((mem_drainedSlots i).mpr h)

lemma nodup_drainedSlots (hm : m.Tagged) : m.drainedSlots.Nodup :=
  ((List.take_sublist _ _).filterMap id).nodup hm.nodup

lemma fate_of_mem_drainedSlots (hm : m.Tagged) {i : Fin n} (hi : i ∈ m.drainedSlots) :
    m.fate i = .queued :=
  (hm.queued i).mp (List.mem_of_mem_take ((mem_drainedSlots i).mp hi))

/-- The drain counts one for each of the slots that it takes. -/
lemma countP_drained (hm : m.Tagged) :
    (acPeekEvents m.ring).events.countP (fun e => e.type = .syscallHook) =
      m.drainedSlots.length := by
  obtain ⟨es, hes⟩ := hm.numbered
  rw [acPeekEvents_eq_take hes]
  have hl := List.forall₂_take m.drained hm.lockstep
  change List.countP _ (List.take m.drained _) = (List.filterMap id (m.tags.take m.drained)).length
  revert hl
  generalize m.tags.take m.drained = ts
  generalize (m.ring.toRingBuffer.contents acRingSize).take m.drained = evs
  intro hl
  induction hl with
  | nil => rfl
  | @cons t ev ts evs h _ ih =>
    rw [List.countP_cons, ih]
    cases t with
    | none => simp_all
    | some j => simp_all

lemma drain (hm : m.Tagged) : m.drain.Tagged := by
  obtain ⟨es, hes⟩ := hm.numbered
  have hring : m.drain.ring = m.ring.advance m.drained := acCommitEvents_peek hes
  have hfate : ∀ i, m.drain.fate i = if i ∈ m.drainedSlots then .logged else m.fate i :=
    foldl_update_logged _ _
  refine ⟨⟨es, hring ▸ hes.advance (Nat.min_le_left _ _)⟩, ?_, ?_, fun i => ?_, fun i => ?_,
    fun i k hk => ?_⟩
  · rw [hring]
    change List.Forall₂ _ (m.tags.drop m.drained) _
    rw [AcRing.advance, RingBuffer.contents_dropFront]
    exact List.forall₂_drop _ hm.lockstep
  · exact ((List.drop_sublist _ _).filterMap id).nodup hm.nodup
  · rw [hfate]
    refine (hm.mem_drop_iff i).trans ?_
    by_cases hi : i ∈ m.drainedSlots <;> simp [hi, hm.queued]
  · rw [hfate]
    refine (hm.since i).trans ?_
    by_cases hi : i ∈ m.drainedSlots
    · simp [hi, hm.fate_of_mem_drainedSlots hi]
    · simp [hi]
  · have hle := hm.since_le i k hk
    rw [drain_log, List.length_append]
    omega

lemma reported_drain (hm : m.Tagged) (i : Fin n) : m.drain.reported i = m.reported i := by
  have hsince : m.drain.since = m.since := rfl
  rw [hm.reported_append hsince m.drain_log]
  simp

end Monitor.Tagged

/-! ### A check of the table -/

lemma filterMap_weave (gaps : ℕ → Gap) (emits : List (Fin n × AcEmit)) :
    (weave gaps emits).filterMap Push.slot = emits.filterMap hookSlot := by
  unfold weave
  generalize 0 = k
  induction emits generalizing k with
  | nil => rfl
  | cons x xs ih =>
    rw [List.zipIdx_cons, List.flatMap_cons, List.filterMap_append, ih]
    cases hx : hookSlot x <;> simp [hx]

lemma nextHooked_of_persists {t : SyscallTable n} {p : Poll n} (hp : persists t p = true)
    (i : Fin n) : nextHooked t p i = (t.hooked i || hookSeen t.bounds p i) := by
  have hi := List.all_eq_true.mp hp i (List.mem_finRange i)
  unfold nextHooked
  cases hread : p.read i with
  | none => simp [hookSeen, hread]
  | some e =>
    simp only [hread] at hi ⊢
    cases hh : t.hooked i with
    | false =>
      by_cases he : e = 0
      · simp [he, hookSeen, hread]
      · simp [he]
    | true =>
      have hseen : hookSeen t.bounds p i = true := by simpa [hh] using hi
      have he : e ≠ 0 := by
        rintro rfl
        simp [hookSeen, hread] at hseen
      simp [he, hseen]

/-- The slots with their bit set have a history, and the baseline is captured unless there is no
table. -/
structure Monitor.Flagged (m : Monitor n) : Prop where
  flagged : ∀ i, m.table.hooked i = true ↔ m.fate i ≠ .fresh
  located : m.table.base ≠ 0 → m.table.Captured
  absent : m.table.base = 0 → ∀ i, m.table.hooked i = false

/-- The slots that a check finds hooked. -/
def seenSet (k : TextBounds) (p : Poll n) : Finset (Fin n) :=
  Finset.univ.filter fun i => hookSeen k p i = true

lemma countP_finRange (f : Fin n → Bool) :
    (List.finRange n).countP f = (Finset.univ.filter fun i => f i = true).card := by
  rw [List.countP_eq_length_filter,
    ← List.toFinset_card_of_nodup ((List.nodup_finRange n).filter _)]
  congr 1
  ext i
  simp

/-- A check emits the hook events of the slots whose bit it sets, and counts those it finds
hooked. -/
lemma ioctlCheck_cases {gaps : ℕ → Gap} {p : Poll n} {c : Option AcSyscallCheck} (htag : m.Tagged)
    (hflag : m.Flagged) (h : m.ioctlCheck gaps p = some (m', c)) :
    (m' = m ∧ c = none ∧ m.table.base = 0) ∨
      ∃ out slots t, c = some out ∧ out.hooked = (seenSet m.table.bounds p).card ∧
        (∀ i, t.hooked i = (m.table.hooked i || hookSeen m.table.bounds p i)) ∧
        m'.Tagged ∧ m'.Flagged ∧ Pushed slots { m with table := t } m' := by
  unfold Monitor.ioctlCheck at h
  split_ifs at h with hpersist
  have hp : persists m.table p = true := by simpa using hpersist
  cases hcheck : acCheckSyscalls m.table p with
  | none =>
    simp only [hcheck, Option.some.injEq, Prod.mk.injEq] at h
    refine .inl ⟨h.1.symm, h.2.symm, ?_⟩
    by_contra hbase
    simp [acCheckSyscalls, hbase] at hcheck
  | some r =>
    obtain ⟨t, emits, out⟩ := r
    simp only [hcheck] at h
    split_ifs at h with hwf
    simp only [Option.some.injEq, Prod.mk.injEq] at h
    obtain ⟨rfl, rfl⟩ := h
    have hbase := base_ne_zero_of_check hcheck
    have hcap := hflag.located hbase
    obtain ⟨hout, hbits, hslots⟩ := hooks_of_check hcap hcheck
    have hbits' : ∀ i, t.hooked i = (m.table.hooked i || hookSeen m.table.bounds p i) :=
      fun i => (hbits i).trans (nextHooked_of_persists hp i)
    rw [← filterMap_weave gaps] at hslots
    have hmem : ∀ i, i ∈ (weave gaps emits).filterMap Push.slot ↔
        hookSeen m.table.bounds p i = true ∧ m.table.hooked i = false := by
      simp [hslots]
    have htag' : Monitor.Tagged { m with table := t } := ⟨htag.1, htag.2, htag.3, htag.4, htag.5,
      htag.6⟩
    have hfresh : ∀ i ∈ (weave gaps emits).filterMap Push.slot, m.fate i = .fresh := by
      intro i hi
      by_contra hne
      have := (hflag.flagged i).mpr hne
      simp [((hmem i).mp hi).2] at this
    obtain ⟨htag'', hpushed⟩ := pushed_pushAll htag' (List.all_eq_true.mp hwf)
      (hslots ▸ (List.nodup_finRange n).filter _) hfresh
    refine .inr ⟨out, _, t, rfl, hout.trans (countP_finRange _), hbits', htag'', ⟨?_, ?_, ?_⟩,
      hpushed⟩
    · intro i
      have hold := hflag.flagged i
      rw [hpushed.table, (hpushed.fate i).ne_fresh_iff, hmem, hbits', Bool.or_eq_true, hold]
      cases hookSeen m.table.bounds p i <;> cases hh : m.table.hooked i <;> simp_all
    · rw [hpushed.table]
      exact fun _ => captured_of_check hcap hcheck
    · rw [hpushed.table]
      intro hzero
      exact absurd ((bounds_of_check hcap hcheck).1.symm.trans hzero) hbase

/-! ### The invariant -/

/-- The slots that a line of the log accounts for. -/
def Monitor.settledSet (m : Monitor n) : Finset (Fin n) :=
  Finset.univ.filter fun i => m.fate i = .logged ∨ m.reported i = true

structure Monitor.Inv (m : Monitor n) : Prop where
  tagged : m.Tagged
  flagged : m.Flagged
  accounted : m.daemon.hookLevel.accounted ≤ m.settledSet.card
  waiting : ∀ i c, m.fate i = .evicted (c + 1) → m.reported i = false →
    m.daemon.hookLevel.prevExcess ≠ 0
  twice : ∀ i c, m.fate i = .evicted (c + 2) → m.reported i = true

lemma Monitor.Inv.init (base : UInt64) (k : TextBounds) (read : Fin n → Option UInt64) :
    (Monitor.init base k read).Inv := by
  refine ⟨⟨⟨[], AcRing.numbered_init⟩, .nil, List.nodup_nil, fun i => ?_, fun i => ?_,
    fun i k hk => ?_⟩, ⟨fun i => ?_, fun hbase => ?_, fun hbase i => ?_⟩, Nat.zero_le _, ?_, ?_⟩
  · simp [Monitor.init]
  · simp [Monitor.init]
  · simp [Monitor.init] at hk
  · simp [Monitor.init, SyscallTable.init]
  · exact captured_capture (by simpa [Monitor.init, SyscallTable.init] using hbase) k read
  · simp [Monitor.init, SyscallTable.init]
  · simp [Monitor.init]
  · simp [Monitor.init]

/-- Emits alone change nothing that is accounted for. -/
lemma Monitor.Inv.of_pushed {slots : List (Fin n)} {t : SyscallTable n} (hm : m.Inv)
    (htag : m'.Tagged) (hflag : m'.Flagged) (h : Pushed slots { m with table := t } m') :
    m'.Inv := by
  have hrep : ∀ i, m'.reported i = m.reported i := h.reported
  have hsettled : m'.settledSet = m.settledSet := by
    ext i
    simp [Monitor.settledSet, hrep, (h.fate i).logged_iff]
  refine ⟨htag, hflag, ?_, fun i c hc hr => ?_, fun i c hc => ?_⟩
  · rw [hsettled, h.daemon]
    exact hm.accounted
  · rw [h.daemon]
    have hf := h.fate i
    rw [hc] at hf
    exact hm.waiting i c hf.of_evicted_succ (hrep i ▸ hr)
  · have hf := h.fate i
    rw [hc] at hf
    rw [hrep]
    exact hm.twice i c hf.of_evicted_succ

/-- A drain accounts for exactly the slots whose events it takes, when no line counted them. -/
lemma Monitor.Inv.drain (hm : m.Inv) (hok : ∀ i ∈ m.drainedSlots, m.reported i = false) :
    m.drain.Inv := by
  have htag := hm.tagged
  have hfate : ∀ i, m.drain.fate i = if i ∈ m.drainedSlots then .logged else m.fate i :=
    foldl_update_logged _ _
  have hlevel : m.drain.daemon.hookLevel =
      ⟨m.daemon.hookLevel.accounted + m.drainedSlots.length, m.daemon.hookLevel.prevExcess⟩ := by
    rw [← htag.countP_drained]
    exact (Daemon.foldl_event _ _).1
  have hevicted : ∀ i c, m.drain.fate i = .evicted c → m.fate i = .evicted c := by
    intro i c hc
    rw [hfate] at hc
    split_ifs at hc
    exact hc
  refine ⟨htag.drain, ⟨fun i => ?_, hm.flagged.located, hm.flagged.absent⟩, ?_,
    fun i c hc hr => ?_, fun i c hc => ?_⟩
  · rw [hfate]
    refine (hm.flagged.flagged i).trans ?_
    by_cases hi : i ∈ m.drainedSlots
    · simp [hi, htag.fate_of_mem_drainedSlots hi]
    · simp [hi]
  · have hdisj : Disjoint m.settledSet m.drainedSlots.toFinset := by
      rw [Finset.disjoint_left]
      intro i hi hmem
      rw [List.mem_toFinset] at hmem
      simp [Monitor.settledSet, htag.fate_of_mem_drainedSlots hmem, hok i hmem] at hi
    have hunion : m.settledSet ∪ m.drainedSlots.toFinset ⊆ m.drain.settledSet := by
      intro i hi
      simp only [Monitor.settledSet, Finset.mem_union, Finset.mem_filter, Finset.mem_univ, true_and,
        List.mem_toFinset, hfate, htag.reported_drain] at hi ⊢
      by_cases hmem : i ∈ m.drainedSlots
      · simp [hmem]
      · simpa [hmem] using hi
    have hcard := Finset.card_le_card hunion
    rw [Finset.card_union_of_disjoint hdisj,
      List.toFinset_card_of_nodup htag.nodup_drainedSlots] at hcard
    rw [hlevel]
    exact (Nat.add_le_add_right hm.accounted _).trans hcard
  · rw [hlevel]
    exact hm.waiting i c (hevicted i _ hc) (htag.reported_drain i ▸ hr)
  · rw [htag.reported_drain]
    exact hm.twice i c (hevicted i _ hc)

/-! ### The periodic check -/

lemma sysLevelCheck_eq (lv : AcSysLevel) (cur : ℕ) :
    sysLevelCheck lv cur = if lv.accounted < cur ∧ lv.prevExcess ≠ 0 then (⟨cur, 0⟩, true)
      else (⟨min lv.accounted cur, cur - lv.accounted⟩, false) := by
  have hclamp : (if lv.accounted > cur then cur else lv.accounted) = min lv.accounted cur := by
    split_ifs <;> omega
  have hexcess : cur - min lv.accounted cur = cur - lv.accounted := by omega
  simp only [sysLevelCheck, hclamp, hexcess, ne_eq, Nat.sub_eq_zero_iff_le, Nat.not_le]

lemma any_ite_singleton {α : Type*} (f : α → Bool) (b : Bool) (x : α) :
    (if b then [x] else []).any f = (b && f x) := by
  cases b <;> simp

/-- What the report does to the hook level and writes for it. -/
lemma Daemon.check_some (d : Daemon) (c : AcSyscallCheck) :
    (d.check (some c)).hookLevel = (sysLevelCheck d.hookLevel c.hooked).1 ∧
      ∃ ls, (d.check (some c)).log = d.log ++ ls ∧
        (ls.any fun l => l.kind = .stillHooked) = (sysLevelCheck d.hookLevel c.hooked).2 := by
  refine ⟨rfl, _, by simp only [Daemon.check, Daemon.report, List.append_assoc]; rfl, ?_⟩
  simp only [List.any_append, any_ite_singleton, stillHookedLine, stillRedirectedLine,
    checksumLine]
  simp

lemma Monitor.Tagged.reported_of_fresh (hm : m.Tagged) {i : Fin n} (hi : m.fate i = .fresh) :
    m.reported i = false := by
  simp [Monitor.reported, (hm.since i).mpr hi]

/-- The part of the check before the report keeps the histories in step. -/
lemma Monitor.Inv.counted (hm : m.Inv) (p : Poll n) :
    (m.counted p).Tagged ∧ (m.counted p).Flagged := by
  have hfresh : ∀ i, (m.counted p).fate i = .fresh ↔ m.fate i = .fresh := by
    intro i
    simp only [Monitor.counted]
    cases m.fate i <;> simp
  have hqueued : ∀ i, (m.counted p).fate i = .queued ↔ m.fate i = .queued := by
    intro i
    simp only [Monitor.counted]
    cases m.fate i <;> simp
  have ht := hm.tagged
  have hf := hm.flagged
  exact ⟨⟨ht.numbered, ht.lockstep, ht.nodup, fun i => (ht.queued i).trans (hqueued i).symm,
    fun i => (ht.since i).trans (hfresh i).symm, ht.since_le⟩,
    ⟨fun i => (hf.flagged i).trans (not_congr (hfresh i)).symm, hf.located, hf.absent⟩⟩

/-- A slot whose event was evicted and that no line counted keeps the excess above zero. -/
lemma Monitor.Inv.accounted_lt (hm : m.Inv) {p : Poll n} {i : Fin n} {c : ℕ}
    (hseen : ∀ i, m.table.hooked i = true → hookSeen m.table.bounds p i = true)
    (hi : m.fate i = .evicted c) (hr : m.reported i = false) :
    m.daemon.hookLevel.accounted < (seenSet m.table.bounds p).card := by
  refine Nat.lt_of_le_of_lt hm.accounted (Finset.card_lt_card ?_)
  rw [Finset.ssubset_iff_of_subset]
  · refine ⟨i, ?_, ?_⟩
    · have hflag := (hm.flagged.flagged i).mpr (by simp [hi])
      simpa [seenSet] using hseen i hflag
    · simp [Monitor.settledSet, hi, hr]
  · intro j hj
    have hfate : m.fate j ≠ .fresh := by
      intro hf
      simp [Monitor.settledSet, hf, hm.tagged.reported_of_fresh hf] at hj
    simpa [seenSet] using hseen j ((hm.flagged.flagged j).mpr hfate)

lemma Monitor.counted_evicted {p : Poll n} {i : Fin n} {c : ℕ}
    (h : (m.counted p).fate i = .evicted c) : ∃ c', m.fate i = .evicted c' ∧ c ≤ c' + 1 := by
  simp only [Monitor.counted] at h
  cases hf : m.fate i with
  | evicted c' =>
    simp only [hf, Fate.evicted.injEq] at h
    refine ⟨c', rfl, ?_⟩
    split_ifs at h <;> omega
  | _ => simp [hf] at h

/-- Lines written keep the histories in step. -/
lemma Monitor.Tagged.log (hm : m.Tagged) {d : Daemon} {ls : List LogLine}
    (hlog : d.log = m.daemon.log ++ ls) : Monitor.Tagged { m with daemon := d } := by
  refine ⟨hm.numbered, hm.lockstep, hm.nodup, hm.queued, hm.since, fun i k hk => ?_⟩
  have hle := hm.since_le i k hk
  simp only [hlog, List.length_append]
  omega

/-- A check that fails leaves the levels alone; there is then no slot with a history. -/
lemma Monitor.Inv.check_none (hm : m.Inv) (p : Poll n) (hbase : m.table.base = 0) :
    Monitor.Inv { m.counted p with daemon := m.daemon.check none } := by
  obtain ⟨htag, hflag⟩ := hm.counted p
  have hfresh : ∀ i, (m.counted p).fate i = .fresh := by
    intro i
    by_contra hne
    have := (hflag.flagged i).mpr hne
    rw [hflag.absent hbase i] at this
    cases this
  have hlog : (m.daemon.check none).log = (m.counted p).daemon.log ++ _ := rfl
  refine ⟨htag.log hlog, ⟨hflag.flagged, hflag.located, hflag.absent⟩, ?_, ?_, ?_⟩
  · refine hm.accounted.trans (Finset.card_le_card ?_)
    intro i hi
    have hf : m.fate i = .fresh := by
      by_contra hne
      have := (hm.flagged.flagged i).mpr hne
      rw [hm.flagged.absent hbase i] at this
      cases this
    simp [Monitor.settledSet, hf, hm.tagged.reported_of_fresh hf] at hi
  · intro i c hc
    rw [hfresh] at hc
    cases hc
  · intro i c hc
    rw [hfresh] at hc
    cases hc

/-- A check that reads all hooked slots: it counts them all, and a line is due when an excess was
there at the check before. -/
lemma Monitor.Inv.check_some (hm : m.Inv) {p : Poll n} {out : AcSyscallCheck}
    {slots : List (Fin n)} {t : SyscallTable n}
    (hseen : ∀ i, m.table.hooked i = true → hookSeen m.table.bounds p i = true)
    (hout : out.hooked = (seenSet m.table.bounds p).card)
    (hbits : ∀ i, t.hooked i = (m.table.hooked i || hookSeen m.table.bounds p i))
    (htag : m'.Tagged) (hflag : m'.Flagged)
    (hpushed : Pushed slots { m.counted p with table := t } m') :
    Monitor.Inv { m' with daemon := m'.daemon.check (some out) } := by
  obtain ⟨hlevel, ls, hlog, hls⟩ := Daemon.check_some m'.daemon out
  rw [show m'.daemon.hookLevel = m.daemon.hookLevel by rw [hpushed.daemon]; rfl, hout,
    sysLevelCheck_eq] at hls hlevel
  have hrep : ∀ i, Monitor.reported { m' with daemon := m'.daemon.check (some out) } i =
      (m.reported i || ((m'.since i).isSome && ls.any fun l => l.kind = .stillHooked)) := by
    intro i
    have hsince : Monitor.since { m' with daemon := m'.daemon.check (some out) } = m'.since := rfl
    rw [htag.reported_append hsince hlog, hpushed.reported]
    rfl
  have hsince : ∀ i, m'.fate i ≠ .fresh → (m'.since i).isSome = true := by
    intro i hi
    rw [Option.isSome_iff_ne_none]
    exact fun hnone => hi ((htag.since i).mp hnone)
  -- a slot with a check behind it was evicted before this one
  have hevicted : ∀ i c, m'.fate i = .evicted (c + 1) → ∃ c', m.fate i = .evicted c' ∧ c ≤ c' := by
    intro i c hc
    have hf := hpushed.fate i
    rw [hc] at hf
    obtain ⟨c', hc', hle⟩ := Monitor.counted_evicted hf.of_evicted_succ
    exact ⟨c', hc', by omega⟩
  refine ⟨htag.log hlog, ⟨hflag.flagged, hflag.located, hflag.absent⟩, ?_, fun i c hc hr => ?_,
    fun i c hc => ?_⟩
  · change (m'.daemon.check (some out)).hookLevel.accounted ≤ _
    rw [hlevel]
    by_cases hfire : m.daemon.hookLevel.accounted < (seenSet m.table.bounds p).card ∧
        m.daemon.hookLevel.prevExcess ≠ 0
    · rw [if_pos hfire] at hls ⊢
      change (seenSet m.table.bounds p).card ≤ _
      refine Finset.card_le_card fun i hi => ?_
      have hne : m'.fate i ≠ .fresh := by
        rw [← hflag.flagged, hpushed.table, hbits, (Finset.mem_filter.mp hi).2, Bool.or_true]
      simp [Monitor.settledSet, hrep, hls, hsince i hne]
    · rw [if_neg hfire]
      refine (Nat.min_le_left _ _).trans (hm.accounted.trans (Finset.card_le_card fun i hi => ?_))
      simp only [Monitor.settledSet, Finset.mem_filter, Finset.mem_univ, true_and, hrep] at hi ⊢
      refine hi.imp (fun hl => ?_) fun hr => by simp [hr]
      rw [(hpushed.fate i).logged_iff]
      simp [Monitor.counted, hl]
  · replace hc : m'.fate i = .evicted (c + 1) := hc
    rw [hrep, Bool.or_eq_false_iff] at hr
    obtain ⟨c', hc', -⟩ := hevicted i c hc
    have hlt := hm.accounted_lt hseen hc' hr.1
    have hquiet : (ls.any fun l => l.kind = .stillHooked) = false := by
      simpa [hsince i (by simp [hc])] using hr.2
    change (m'.daemon.check (some out)).hookLevel.prevExcess ≠ 0
    rw [hquiet] at hls
    rw [hlevel]
    split_ifs at hls ⊢
    exact Nat.sub_ne_zero_of_lt hlt
  · replace hc : m'.fate i = .evicted (c + 2) := hc
    obtain ⟨c', hc', hle⟩ := hevicted i (c + 1) hc
    rw [hrep]
    by_cases hr : m.reported i = true
    · simp [hr]
    · have hr' : m.reported i = false := by simpa using hr
      obtain ⟨c'', rfl⟩ : ∃ c'', c' = c'' + 1 := ⟨c' - 1, by omega⟩
      have hwait := hm.waiting i c'' hc' hr'
      rw [if_pos ⟨hm.accounted_lt hseen hc' hr', hwait⟩] at hls
      simp [hls, hsince i (by simp [hc])]

/-! ### Runs -/

/-- A check that reads all hooked slots finds them hooked. -/
lemma hookSeen_of_ioctlCheck {gaps : ℕ → Gap} {p : Poll n} {r : Monitor n × Option AcSyscallCheck}
    (h : (m.counted p).ioctlCheck gaps p = some r)
    (hread : ∀ i ∈ List.finRange n, (!m.table.hooked i || (p.read i).isSome) = true) (i : Fin n)
    (hi : m.table.hooked i = true) : hookSeen m.table.bounds p i = true := by
  have hpersist : persists m.table p = true := by
    by_contra hno
    simp [Monitor.ioctlCheck, Monitor.counted, hno] at h
  have hall := List.all_eq_true.mp hpersist i (List.mem_finRange i)
  have hsome := hread i (List.mem_finRange i)
  cases hr : p.read i with
  | none => simp [hi, hr] at hsome
  | some e => simpa [hi, hr] using hall

lemma Monitor.Inv.step (hm : m.Inv) {a : Act n} (hok : undisturbed m a = true)
    (h : step m a = some m') : m'.Inv := by
  cases a with
  | push now e =>
    simp only [Syscalls.step] at h
    split_ifs at h with he
    cases h
    have hwf : Push.wf (⟨now, e, none⟩ : Push n) = true := by simp [Push.wf, he]
    have hpushed := pushed_push hm.tagged (x := ⟨now, e, none⟩) (by simp)
    have htag := hm.tagged.push (x := ⟨now, e, none⟩) hwf (by simp)
    refine hm.of_pushed htag ⟨fun i => ?_, hm.flagged.located, hm.flagged.absent⟩ hpushed
    rw [(hpushed.fate i).ne_fresh_iff]
    exact (hm.flagged.flagged i).trans (by simp)
  | drain =>
    cases h
    exact hm.drain (by simpa [undisturbed] using hok)
  | check gaps p =>
    simp only [Syscalls.step, Option.bind_eq_bind, Option.bind_eq_some_iff] at h
    obtain ⟨⟨m₁, c⟩, hio, h⟩ := h
    cases h
    obtain ⟨htag, hflag⟩ := hm.counted p
    have hseen := hookSeen_of_ioctlCheck hio (List.all_eq_true.mp hok)
    obtain ⟨rfl, rfl, hbase⟩ | ⟨out, slots, t, rfl, hout, hbits, htag', hflag', hpushed⟩ :=
      ioctlCheck_cases htag hflag hio
    · exact hm.check_none p hbase
    · exact hm.check_some hseen hout hbits htag' hflag' hpushed
  | otherCheck gaps p =>
    simp only [Syscalls.step, Option.bind_eq_bind, Option.bind_eq_some_iff] at h
    obtain ⟨⟨m₁, c⟩, hio, h⟩ := h
    cases h
    obtain ⟨rfl, -, -⟩ | ⟨-, slots, t, -, -, -, htag, hflag, hpushed⟩ :=
      ioctlCheck_cases hm.tagged hm.flagged hio
    · exact hm
    · exact hm.of_pushed htag hflag hpushed

/-- The lines that count as level-triggered reports of hooked slots are those. -/
def Daemon.Lines (d : Daemon) : Prop :=
  ∀ l ∈ d.log, l.kind = .stillHooked → ∃ hooked, l = stillHookedLine hooked

lemma Daemon.Lines.check {d : Daemon} (hd : d.Lines) (c : Option AcSyscallCheck) :
    (d.check c).Lines := by
  cases c with
  | none =>
    intro l hl hkind
    simp only [Daemon.check, List.mem_append] at hl
    rcases hl with hl | hl
    · exact hd l hl hkind
    · split_ifs at hl
      · cases hl
      · rw [List.mem_singleton.mp hl] at hkind
        cases hkind
  | some c =>
    intro l hl hkind
    simp only [Daemon.check, Daemon.report, List.mem_append, List.mem_ite_nil_right,
      List.mem_singleton] at hl
    obtain (((hl | hl) | hl) | hl) | hl := hl
    · exact hd l hl hkind
    · exact ⟨c.hooked, hl.2⟩
    · simp [hl.2, stillRedirectedLine] at hkind
    · simp [hl.2, checksumLine] at hkind
    · simp [hl.2] at hkind

lemma daemon_pushAll (m : Monitor n) (xs : List (Push n)) :
    (m.pushAll xs).daemon = m.daemon := by
  induction xs generalizing m with
  | nil => rfl
  | cons x xs ih => exact ih (m.push x)

lemma daemon_ioctlCheck {gaps : ℕ → Gap} {p : Poll n} {c : Option AcSyscallCheck}
    (h : m.ioctlCheck gaps p = some (m', c)) : m'.daemon = m.daemon := by
  unfold Monitor.ioctlCheck at h
  split_ifs at h
  split at h
  · cases h
    rfl
  · split_ifs at h
    cases h
    exact daemon_pushAll _ _

lemma lines_step {a : Act n} (hm : m.daemon.Lines) (h : step m a = some m') :
    m'.daemon.Lines := by
  cases a with
  | push now e =>
    simp only [step] at h
    split_ifs at h
    cases h
    exact hm
  | drain =>
    cases h
    intro l hl hkind
    rw [Monitor.drain_log, List.mem_append] at hl
    rcases hl with hl | hl
    · exact hm l hl hkind
    · obtain ⟨e, -, rfl⟩ := List.mem_map.mp hl
      simp at hkind
  | check gaps p =>
    simp only [step, Option.bind_eq_bind, Option.bind_eq_some_iff] at h
    obtain ⟨⟨m₁, c⟩, hio, h⟩ := h
    cases h
    have hd : m₁.daemon = (m.counted p).daemon := daemon_ioctlCheck hio
    change (m₁.daemon.check c).Lines
    rw [hd]
    exact hm.check c
  | otherCheck gaps p =>
    simp only [step, Option.bind_eq_bind, Option.bind_eq_some_iff] at h
    obtain ⟨⟨m₁, c⟩, hio, h⟩ := h
    cases h
    exact daemon_ioctlCheck hio ▸ hm

/-- In every run in which no drain takes the event of a slot that a level-triggered line already
counted, and the periodic checks read all hooked slots: a slot whose event was evicted and that
two periodic checks in a row found hooked since is covered by a level-triggered line at
`LOG_CRIT`, written after it was found hooked. -/
theorem stillHooked_of_evicted (base : UInt64) (k : TextBounds) (read : Fin n → Option UInt64)
    (as : List (Act n)) (m : Monitor n)
    (h : run (restrict undisturbed step) (.init base k read) as = some m) (i : Fin n) (c : ℕ)
    (hc : m.fate i = .evicted (c + 2)) :
    ∃ since, m.since i = some since ∧ ∃ l ∈ m.daemon.log.drop since,
      l.prio = .crit ∧ ∃ hooked, l = stillHookedLine hooked := by
  have hinv : m.Inv := run_invariant (fun m a m' hm hst => by
    obtain ⟨hok, hst⟩ := restrict_eq_some.mp hst
    exact hm.step hok hst) (Monitor.Inv.init base k read) h
  have hlines : m.daemon.Lines := run_invariant (P := fun m => m.daemon.Lines)
    (fun m a m' hm hst => lines_step hm hst) (by simp [Daemon.Lines, Monitor.init, Daemon.init])
    (run_of_run_restrict h)
  have hrep := hinv.twice i c hc
  unfold Monitor.reported at hrep
  cases hsince : m.since i with
  | none => simp [hsince] at hrep
  | some since =>
    rw [hsince] at hrep
    obtain ⟨l, hl, hkind⟩ := List.any_eq_true.mp hrep
    obtain ⟨hooked, rfl⟩ := hlines l (List.mem_of_mem_drop hl) (by simpa using hkind)
    exact ⟨since, rfl, _, hl, rfl, hooked, rfl⟩

/-! Two slots and a flood of other events. -/

def flood (k : ℕ) : List (Act 2) := List.replicate k (.push 0 ⟨.exec, 1, "x", ""⟩)

/-- A periodic check that finds these entries. -/
def entriesCheck (e₀ e₁ : UInt64) : Act 2 :=
  .check (fun _ => ⟨[], 0⟩) (samplePoll (some e₀) (some e₁))

def monitorStart : Monitor 2 :=
  .init 0x5000 sampleBounds (samplePoll (some 0x1100) (some 0x1200)).read

/-- Slot 1 is hooked, and its event evicted. -/
def floodRun : List (Act 2) :=
  [entriesCheck 0x1100 0x9000] ++ flood 256 ++
    [entriesCheck 0x1100 0x9000, .drain, entriesCheck 0x1100 0x9000]

lemma floodRun_spec : ((run (restrict undisturbed step) monitorStart floodRun).any fun m =>
    m.fate 1 = .evicted 2) = true := by
  decide +kernel

theorem stillHooked_of_evicted_flood :
    ∃ m, run (restrict undisturbed step) monitorStart floodRun = some m ∧ ∃ since,
      m.since 1 = some since ∧ ∃ l ∈ m.daemon.log.drop since,
        l.prio = .crit ∧ ∃ hooked, l = stillHookedLine hooked := by
  obtain ⟨m, hm, hfate⟩ := (Option.any_eq_true _ _).mp floodRun_spec
  exact ⟨m, hm, stillHooked_of_evicted _ _ _ floodRun m hm 1 0 (of_decide_eq_true hfate)⟩

/-- The event of slot 0 waits in the ring behind others while a level-triggered line counts the
slot; the drain then counts it again, which hides slot 1. -/
def lateDrainRun : List (Act 2) :=
  flood 64 ++ [entriesCheck 0x9000 0x1200, .drain, entriesCheck 0x9000 0x1200, .drain,
    entriesCheck 0x9000 0x9000] ++ flood 256 ++
    [.drain, entriesCheck 0x9000 0x9000, .drain, entriesCheck 0x9000 0x9000]

lemma lateDrainRun_spec : ((run step monitorStart lateDrainRun).any fun m =>
    m.fate 1 = .evicted 2 && m.since 1 = some 66 &&
      (m.daemon.log.drop 66).all fun l => l.kind = .event) = true := by
  decide +kernel

theorem stillHooked_missed : ∃ m since, run step monitorStart lateDrainRun = some m ∧
    m.fate 1 = .evicted 2 ∧ m.since 1 = some since ∧
      ∀ l ∈ m.daemon.log.drop since, l.kind = .event := by
  obtain ⟨m, hm, hspec⟩ := (Option.any_eq_true _ _).mp lateDrainRun_spec
  simp only [Bool.and_eq_true, decide_eq_true_eq, List.all_eq_true] at hspec
  exact ⟨m, 66, hm, hspec.1.1, hspec.1.2, hspec.2⟩

end Anticheat.Syscalls
