import Anticheat.Lib.Linearized
import Anticheat.Lib.Run

/-!
# The webhook

`ReportNotifier`: the handlers of reports put payloads into a bounded queue without waiting, and one
worker thread posts them. Each operation of the queue, each critical section of `_dropped_lock` and
each line of the log is a step; any number of handlers run at the same time. The lines that name a
payload are kept as the payload.
-/

namespace Anticheat.Server

open Transition

variable {P : Type*}

/-! ### The system -/

/-- Where a call of `notify` is. -/
inductive NotifyPc where
  /-- before the line about the report -/
  | entered
  /-- before `put_nowait` -/
  | logged
  /-- the queue was full; before `_dropped_lock` -/
  | full
  /-- before the line about the drop, with the total it will name -/
  | counted (total : ℕ)
  /-- returned: without a webhook, after `put_nowait`, or after the line about the drop -/
  | ignored
  | queued
  | dropped (total : ℕ)
  deriving DecidableEq, Repr

structure NotifyCall (P : Type*) where
  payload : P
  pc : NotifyPc
  deriving DecidableEq, Repr

inductive NotifyLine (P : Type*) where
  | newReport (payload : P)
  | queueFull (total : ℕ)
  | deliveryFailed (payload : P)
  deriving DecidableEq, Repr

/-- `_queue` (`none` without a webhook), `dropped`, and the payload that the worker has taken. The
rest is history: the lines written, the calls whose payload was put into the queue, with it, and the
payloads posted, with whether the post succeeded. -/
structure Notifier (P : Type*) where
  queue : Option (List P)
  dropped : ℕ
  worker : Option P
  calls : List (NotifyCall P)
  lines : List (NotifyLine P)
  accepted : List (ℕ × P)
  posted : List (P × Bool)
  deriving DecidableEq, Repr

def Notifier.init (webhook : Bool) : Notifier P :=
  ⟨if webhook then some [] else none, 0, none, [], [], [], []⟩

inductive NotifyAct (P : Type*) where
  | notify (payload : P)
  | step (i : ℕ)
  /-- `get` of the worker -/
  | take
  /-- the worker is done with the payload -/
  | post (delivered : Bool)
  deriving DecidableEq, Repr

namespace Notifier

variable (s : Notifier P)

def setPc (i : ℕ) (c : NotifyCall P) (pc : NotifyPc) : Notifier P :=
  { s with calls := s.calls.set i { c with pc := pc } }

/-- The steps of `notify`. `notifyQueueSize` is raised to 1 by `__init__`. -/
def advance (notifyQueueSize i : ℕ) (c : NotifyCall P) : Option (Notifier P) :=
  match c.pc with
  | .entered =>
    some { s.setPc i c (if s.queue.isNone then .ignored else .logged) with
      lines := s.lines ++ [.newReport c.payload] }
  | .logged =>
    match s.queue with
    | none => none
    | some q =>
      if max notifyQueueSize 1 ≤ q.length then some (s.setPc i c .full)
      else
        some { s.setPc i c .queued with
          queue := some (q ++ [c.payload])
          accepted := s.accepted ++ [(i, c.payload)] }
  | .full => some { s.setPc i c (.counted (s.dropped + 1)) with dropped := s.dropped + 1 }
  | .counted total =>
    some { s.setPc i c (.dropped total) with lines := s.lines ++ [.queueFull total] }
  | .ignored | .queued | .dropped _ => none

def step (notifyQueueSize : ℕ) (s : Notifier P) : NotifyAct P → Option (Notifier P)
  | .notify p => some { s with calls := s.calls ++ [⟨p, .entered⟩] }
  | .step i => s.calls[i]?.bind fun c => s.advance notifyQueueSize i c
  | .take =>
    match s.worker, s.queue with
    | none, some (p :: q) => some { s with worker := some p, queue := some q }
    | _, _ => none
  | .post delivered =>
    match s.worker with
    | none => none
    | some p =>
      some { s with
        worker := none
        posted := s.posted ++ [(p, delivered)]
        lines := if delivered then s.lines else s.lines ++ [.deliveryFailed p] }

end Notifier

namespace NotifyPc

/-- The total that the line about a drop names. -/
def total : NotifyPc → Option ℕ
  | .counted n | .dropped n => some n
  | _ => none

end NotifyPc

/-! ### What was dropped -/

/-- The totals that calls name are `1` to `dropped`, each once. -/
structure Totals (calls : List (NotifyCall P)) (dropped : ℕ) : Prop where
  total_iff : ∀ n, (∃ (i : ℕ) (c : NotifyCall P), calls[i]? = some c ∧ c.pc.total = some n) ↔
    1 ≤ n ∧ n ≤ dropped
  total_inj : ∀ (i j : ℕ) (c d : NotifyCall P) (n : ℕ), calls[i]? = some c →
    calls[j]? = some d → c.pc.total = some n → d.pc.total = some n → i = j

namespace Totals

variable {calls : List (NotifyCall P)} {dropped i : ℕ} {c : NotifyCall P}

lemma nil : Totals ([] : List (NotifyCall P)) 0 where
  total_iff n := by
    simp only [List.getElem?_nil, reduceCtorEq, false_and, exists_false, false_iff]
    omega
  total_inj i _ c _ n hi := by simp at hi

variable (h : Totals calls dropped)

include h

lemma notify (p : P) : Totals (calls ++ [⟨p, .entered⟩]) dropped where
  total_iff n := by
    rw [← h.total_iff n]
    constructor
    · rintro ⟨j, d, hd, hn⟩
      rcases getElem?_concat_eq_some.mp hd with ⟨-, rfl⟩ | hd
      · cases hn
      · exact ⟨j, d, hd, hn⟩
    · rintro ⟨j, d, hd, hn⟩
      exact ⟨j, d, getElem?_concat_eq_some.mpr (.inr hd), hn⟩
  total_inj j k d e n hd he hdn hen := by
    rcases getElem?_concat_eq_some.mp hd with ⟨-, rfl⟩ | hd
    · cases hdn
    rcases getElem?_concat_eq_some.mp he with ⟨-, rfl⟩ | he
    · cases hen
    exact h.total_inj j k d e n hd he hdn hen

/-- A call goes on and names no other total. -/
lemma move (hi : calls[i]? = some c) {pc : NotifyPc} (htotal : pc.total = c.pc.total) :
    Totals (calls.set i { c with pc := pc }) dropped := by
  have hback : ∀ (l : ℕ) (b : NotifyCall P) (n : ℕ),
      (calls.set i { c with pc := pc })[l]? = some b → b.pc.total = some n →
        ∃ b', calls[l]? = some b' ∧ b'.pc.total = some n := by
    intro l b n hb hbn
    rcases (getElem?_set_eq_some hi).mp hb with ⟨rfl, rfl⟩ | ⟨-, hb⟩
    · exact ⟨c, hi, htotal.symm.trans hbn⟩
    · exact ⟨b, hb, hbn⟩
  constructor
  · intro n
    rw [← h.total_iff n]
    constructor
    · rintro ⟨j, d, hd, hn⟩
      obtain ⟨d', hd', hn'⟩ := hback j d n hd hn
      exact ⟨j, d', hd', hn'⟩
    · rintro ⟨j, d, hd, hn⟩
      by_cases hj : j = i
      · subst hj
        obtain rfl := Option.some.inj (hi.symm.trans hd)
        exact ⟨j, _, (getElem?_set_eq_some hi).mpr (.inl ⟨rfl, rfl⟩), htotal.trans hn⟩
      · exact ⟨j, d, (getElem?_set_eq_some hi).mpr (.inr ⟨hj, hd⟩), hn⟩
  · intro j k d e n hd he hdn hen
    obtain ⟨d', hd', hdn'⟩ := hback j d n hd hdn
    obtain ⟨e', he', hen'⟩ := hback k e n he hen
    exact h.total_inj j k d' e' n hd' he' hdn' hen'

/-- A call counts its payload as dropped. -/
lemma count (hi : calls[i]? = some c) (hnone : c.pc.total = none) :
    Totals (calls.set i { c with pc := .counted (dropped + 1) }) (dropped + 1) := by
  have hfront : ∀ (l : ℕ) (b : NotifyCall P) (n : ℕ),
      (calls.set i { c with pc := .counted (dropped + 1) })[l]? = some b → b.pc.total = some n →
        (l = i ∧ n = dropped + 1) ∨ (calls[l]? = some b ∧ n ≤ dropped) := by
    intro l b n hb hbn
    rcases (getElem?_set_eq_some hi).mp hb with ⟨rfl, rfl⟩ | ⟨-, hb⟩
    · exact .inl ⟨rfl, (Option.some.inj hbn).symm⟩
    · exact .inr ⟨hb, ((h.total_iff n).mp ⟨l, b, hb, hbn⟩).2⟩
  constructor
  · intro n
    constructor
    · rintro ⟨j, d, hd, hn⟩
      rcases hfront j d n hd hn with ⟨-, rfl⟩ | ⟨hd, -⟩
      · exact ⟨Nat.succ_pos _, le_rfl⟩
      · have hle := (h.total_iff n).mp ⟨j, d, hd, hn⟩
        exact ⟨hle.1, Nat.le_succ_of_le hle.2⟩
    · rintro ⟨hpos, hle⟩
      by_cases hn : n = dropped + 1
      · exact ⟨i, _, (getElem?_set_eq_some hi).mpr (.inl ⟨rfl, rfl⟩), congrArg some hn.symm⟩
      · obtain ⟨j, d, hd, hdn⟩ := (h.total_iff n).mpr ⟨hpos, by omega⟩
        have hj : j ≠ i := by
          rintro rfl
          obtain rfl := Option.some.inj (hi.symm.trans hd)
          simp [hnone] at hdn
        exact ⟨j, d, (getElem?_set_eq_some hi).mpr (.inr ⟨hj, hd⟩), hdn⟩
  · intro j k d e n hd he hdn hen
    rcases hfront j d n hd hdn with ⟨rfl, rfl⟩ | ⟨hd, hle⟩
    · rcases hfront k e _ he hen with ⟨rfl, -⟩ | ⟨-, hle⟩
      · rfl
      · omega
    · rcases hfront k e n he hen with ⟨-, rfl⟩ | ⟨he, -⟩
      · omega
      · exact h.total_inj j k d e n hd he hdn hen

end Totals

/-! ### What was put into the queue -/

/-- What was put into the queue was posted, is with the worker or is still in the queue, in the
order in which it was put there. -/
structure Notifier.Fifo (notifyQueueSize : ℕ) (s : Notifier P) : Prop where
  bounded : ∀ q, s.queue = some q → q.length ≤ max notifyQueueSize 1
  fifo : s.accepted.map Prod.snd =
    s.posted.map Prod.fst ++ s.worker.toList ++ s.queue.getD []
  once : (s.accepted.map Prod.fst).Nodup
  accepted_iff : ∀ i p, (i, p) ∈ s.accepted ↔ s.calls[i]? = some ⟨p, .queued⟩

namespace Notifier.Fifo

variable {notifyQueueSize : ℕ} {s : Notifier P} {i : ℕ} {c : NotifyCall P}

lemma init (webhook : Bool) : (Notifier.init webhook : Notifier P).Fifo notifyQueueSize where
  bounded q hq := by
    cases webhook <;> cases hq
    exact Nat.zero_le _
  fifo := by cases webhook <;> rfl
  once := List.nodup_nil
  accepted_iff := by simp [Notifier.init]

variable (h : s.Fifo notifyQueueSize)

include h

lemma notify (p : P) :
    Notifier.Fifo notifyQueueSize { s with calls := s.calls ++ [⟨p, .entered⟩] } :=
  { h with
    accepted_iff := fun j q => by
      rw [h.accepted_iff j q, getElem?_concat_eq_some]
      simp }

/-- A call goes on without putting anything into the queue. -/
lemma move (hi : s.calls[i]? = some c) (pc : NotifyPc) (hold : c.pc ≠ .queued)
    (hnew : pc ≠ .queued) : (s.setPc i c pc).Fifo notifyQueueSize :=
  { h with
    accepted_iff := fun j q => by
      rw [Notifier.setPc, h.accepted_iff j q, getElem?_set_eq_some hi]
      by_cases hj : j = i
      · subst hj
        rw [hi]
        refine iff_of_false (fun heq => hold ?_) ?_
        · rw [Option.some.inj heq]
        · rintro (⟨-, heq⟩ | ⟨hne, -⟩)
          · exact hnew (NotifyCall.mk.inj heq).2.symm
          · exact hne rfl
      · simp [hj] }

/-- `put_nowait` finds room. -/
lemma put (hi : s.calls[i]? = some c) (hold : c.pc ≠ .queued) {q : List P} (hq : s.queue = some q)
    (hroom : q.length < max notifyQueueSize 1) :
    Notifier.Fifo notifyQueueSize { s.setPc i c .queued with
      queue := some (q ++ [c.payload])
      accepted := s.accepted ++ [(i, c.payload)] } where
  bounded q' hq' := by
    cases hq'
    rw [List.length_append, List.length_singleton]
    exact hroom
  fifo := by
    have hfifo := h.fifo
    rw [hq] at hfifo
    simp only [Notifier.setPc, List.map_append, hfifo, Option.getD_some, List.map_singleton,
      List.append_assoc]
  once := by
    rw [List.map_append, List.nodup_append]
    refine ⟨h.once, List.nodup_singleton i, ?_⟩
    rintro j hj k hk rfl
    obtain ⟨⟨j, p⟩, hp, rfl⟩ := List.mem_map.mp hj
    obtain rfl := List.mem_singleton.mp hk
    -- the call would have put its payload before
    have heq := Option.some.inj (hi.symm.trans ((h.accepted_iff _ p).mp hp))
    exact hold (by rw [heq])
  accepted_iff j p := by
    rw [List.mem_append, List.mem_singleton, h.accepted_iff j p, Notifier.setPc,
      getElem?_set_eq_some hi]
    by_cases hj : j = i
    · subst hj
      rw [hi]
      have hne : ¬ some c = some ⟨p, .queued⟩ := fun heq => hold (by rw [Option.some.inj heq])
      simp [hne]
    · simp [hj]

lemma take {p : P} {q : List P} (hw : s.worker = none) (hq : s.queue = some (p :: q)) :
    Notifier.Fifo notifyQueueSize { s with worker := some p, queue := some q } :=
  { h with
    bounded := fun q' hq' => by
      cases hq'
      exact (Nat.le_succ _).trans (h.bounded _ hq)
    fifo := by simpa [hw, hq] using h.fifo }

lemma post {p : P} (hw : s.worker = some p) (delivered : Bool) (lines : List (NotifyLine P)) :
    Notifier.Fifo notifyQueueSize
      { s with worker := none, posted := s.posted ++ [(p, delivered)], lines := lines } :=
  { h with fifo := by simpa [hw] using h.fifo }

end Notifier.Fifo

/-! ### Runs -/

variable {notifyQueueSize : ℕ} {s s' : Notifier P}

lemma Notifier.step_inv {a : NotifyAct P} (h : s.Fifo notifyQueueSize)
    (ht : Totals s.calls s.dropped) (hs' : s.step notifyQueueSize a = some s') :
    s'.Fifo notifyQueueSize ∧ Totals s'.calls s'.dropped := by
  cases a with
  | notify p =>
    cases hs'
    exact ⟨h.notify p, ht.notify p⟩
  | take =>
    simp only [Notifier.step] at hs'
    split at hs'
    · rename_i hw hq
      cases hs'
      exact ⟨h.take hw hq, ht⟩
    · cases hs'
  | post delivered =>
    simp only [Notifier.step] at hs'
    split at hs'
    · cases hs'
    · rename_i hw
      cases hs'
      exact ⟨h.post hw delivered _, ht⟩
  | step i =>
    obtain ⟨c, hi, hs'⟩ := Option.bind_eq_some_iff.mp hs'
    unfold Notifier.advance at hs'
    cases hpc : c.pc with
    | entered =>
      simp only [hpc] at hs'
      cases hs'
      have hnew : (if s.queue.isNone then NotifyPc.ignored else .logged) ≠ .queued := by
        split_ifs <;> simp
      have hmoved := h.move hi _ (by simp [hpc]) hnew
      refine ⟨{ hmoved with }, ht.move hi ?_⟩
      rw [hpc]
      split_ifs <;> rfl
    | logged =>
      simp only [hpc] at hs'
      split at hs'
      · cases hs'
      · rename_i q hq
        split_ifs at hs' with hroom
        · cases hs'
          exact ⟨h.move hi _ (by simp [hpc]) (by simp), ht.move hi (by rw [hpc]; rfl)⟩
        · cases hs'
          exact ⟨h.put hi (by simp [hpc]) hq (Nat.lt_of_not_le hroom),
            ht.move hi (by rw [hpc]; rfl)⟩
    | full =>
      simp only [hpc] at hs'
      cases hs'
      have hmoved := h.move hi (.counted (s.dropped + 1)) (by simp [hpc]) (by simp)
      exact ⟨{ hmoved with }, ht.count hi (by rw [hpc]; rfl)⟩
    | counted total =>
      simp only [hpc] at hs'
      cases hs'
      have hmoved := h.move hi (.dropped total) (by simp [hpc]) (by simp)
      exact ⟨{ hmoved with }, ht.move hi (by rw [hpc]; rfl)⟩
    | _ =>
      simp only [hpc] at hs'
      cases hs'

variable {webhook : Bool} {acts : List (NotifyAct P)}

lemma Notifier.inv_of_run
    (hrun : run (Notifier.step notifyQueueSize) (Notifier.init webhook) acts = some s) :
    s.Fifo notifyQueueSize ∧ Totals s.calls s.dropped :=
  run_invariant (P := fun s => s.Fifo notifyQueueSize ∧ Totals s.calls s.dropped)
    (fun _ _ _ h hstep => Notifier.step_inv h.1 h.2 hstep)
    ⟨Notifier.Fifo.init webhook, Totals.nil⟩ hrun

/-- However the handlers and the worker interleave: the payloads of the calls that return without a
drop are posted in the order in which they were put into the queue, each once, with at most one in
the hands of the worker and a bounded number waiting. -/
theorem notify_posted_in_order
    (hrun : run (Notifier.step notifyQueueSize) (Notifier.init webhook) acts = some s) :
    s.accepted.map Prod.snd = s.posted.map Prod.fst ++ s.worker.toList ++ s.queue.getD [] ∧
      (s.queue.getD []).length ≤ max notifyQueueSize 1 ∧
      (s.accepted.map Prod.fst).Nodup ∧
      ∀ i p, (i, p) ∈ s.accepted ↔ s.calls[i]? = some ⟨p, .queued⟩ := by
  obtain ⟨h, -⟩ := Notifier.inv_of_run hrun
  refine ⟨h.fifo, ?_, h.once, h.accepted_iff⟩
  cases hq : s.queue with
  | none => exact Nat.zero_le _
  | some q => exact h.bounded q hq

/-- A payload is dropped exactly if the queue is full when its turn comes, and never in silence: the
calls that drop theirs name the totals from 1 to `dropped`, each of them once. -/
theorem notify_drops_counted
    (hrun : run (Notifier.step notifyQueueSize) (Notifier.init webhook) acts = some s) :
    (∀ i p q, s.calls[i]? = some ⟨p, .logged⟩ → s.queue = some q →
      (s.step notifyQueueSize (.step i) = some (s.setPc i ⟨p, .logged⟩ .full) ↔
        q.length = max notifyQueueSize 1)) ∧
      (∀ n, (∃ (i : ℕ) (c : NotifyCall P), s.calls[i]? = some c ∧ c.pc.total = some n) ↔
        1 ≤ n ∧ n ≤ s.dropped) ∧
      ∀ (i j : ℕ) (c d : NotifyCall P) (n : ℕ), s.calls[i]? = some c → s.calls[j]? = some d →
        c.pc.total = some n → d.pc.total = some n → i = j := by
  obtain ⟨h, ht⟩ := Notifier.inv_of_run hrun
  refine ⟨fun i p q hi hq => ?_, ht.total_iff, ht.total_inj⟩
  have hle := h.bounded q hq
  simp only [Notifier.step, hi, Option.bind_some, Notifier.advance, hq]
  by_cases hfull : max notifyQueueSize 1 ≤ q.length
  · rw [if_pos hfull]
    exact iff_of_true rfl (le_antisymm hle hfull)
  · rw [if_neg hfull]
    refine iff_of_false (fun heq => ?_) (fun heq => hfull heq.ge)
    have hqueue := congrArg Notifier.queue (Option.some.inj heq)
    simp [Notifier.setPc, hq] at hqueue

/-- A queue of one: the second payload is dropped while the first waits, the third follows it. -/
def notifyRun : List (NotifyAct String) :=
  [.notify "a", .notify "b", .step 0, .step 1, .step 0, .step 1, .step 1, .step 1, .take,
    .notify "c", .step 2, .step 2, .post false]

def notifyEnd : Notifier String :=
  ⟨some ["c"], 1, none, [⟨"a", .queued⟩, ⟨"b", .dropped 1⟩, ⟨"c", .queued⟩],
    [.newReport "a", .newReport "b", .queueFull 1, .newReport "c", .deliveryFailed "a"],
    [(0, "a"), (2, "c")], [("a", false)]⟩

lemma run_notifyRun : run (Notifier.step 0) (Notifier.init true) notifyRun = some notifyEnd := rfl

theorem notify_posted_in_order_notifyRun :
    notifyEnd.accepted.map Prod.snd = notifyEnd.posted.map Prod.fst ++ ["c"] :=
  (notify_posted_in_order run_notifyRun).1

theorem notify_drops_counted_notifyRun :
    ∃ (i : ℕ) (c : NotifyCall String), notifyEnd.calls[i]? = some c ∧ c.pc.total = some 1 :=
  ((notify_drops_counted run_notifyRun).2.1 1).mpr ⟨le_rfl, le_rfl⟩

end Anticheat.Server
