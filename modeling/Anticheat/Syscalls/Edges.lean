import Anticheat.Syscalls.Check

/-!
# The events of a slot and its readings

`ac_check_syscalls` keeps one bit for each slot and each kind of event, so that an event marks the
first reading of a condition and not every one. `ac_redirect_bitmap` is brought up to date at every
reading, and its events are exactly the transitions. `ac_hooked_bitmap` is not at an empty slot:
the loop goes on before it clears the bit, so a hook that comes back after a `NULL` is not
reported.
-/

namespace Anticheat.Syscalls

open Hash Transition

variable {n : ℕ}

/-! ### Readings -/

/-- The slot was read, its entry is not the trusted one, and it points into the core text. -/
def redirectSeen (k : TextBounds) (b : Option UInt64) (p : Poll n) (i : Fin n) : Bool :=
  match p.read i, b with
  | some e, some b => e ≠ b && !k.acEntryBadSnapshot e p.ranges (p.inModule i).1
  | _, _ => false

/-- What a slot trusts after the capture and the calls: its first reading. -/
def trusted (read : Fin n → Option UInt64) (ps : List (Poll n)) (i : Fin n) : Option UInt64 :=
  firstRead (read :: ps.map Poll.read) i

/-- The last of the calls that read the slot. -/
def lastReading (ps : List (Poll n)) (i : Fin n) : Option (Poll n) :=
  ps.reverse.find? fun p => (p.read i).isSome

/-- The last of the calls that read an entry in the slot other than `NULL`. -/
def lastHandler (ps : List (Poll n)) (i : Fin n) : Option (Poll n) :=
  ps.reverse.find? fun p => (p.read i).any (· ≠ 0)

/-- The slot that an event reports as redirected. -/
def redirectSlot (x : Fin n × AcEmit) : Option (Fin n) :=
  if x.2.type = .syscallRedirect then some x.1 else none

/-- The number of `AC_EV_SYSCALL_HOOK` events for a slot. -/
def hookEvents (ev : List (Fin n × AcEmit)) (i : Fin n) : ℕ := (ev.filterMap hookSlot).count i

/-- The number of `AC_EV_SYSCALL_REDIRECT` events for a slot. -/
def redirectEvents (ev : List (Fin n × AcEmit)) (i : Fin n) : ℕ :=
  (ev.filterMap redirectSlot).count i

/-! ### The bit for redirects -/

/-- The bit of the slot in `ac_redirect_bitmap` after a call: only a slot that was not read keeps
it. -/
def nextRedirect (s : SyscallTable n) (p : Poll n) (i : Fin n) : Bool :=
  match p.read i with
  | none => s.redirect i
  | some _ => redirectSeen s.bounds (s.known i) p i

/-- What the loop has done to redirects when the slots of `l` are behind it. -/
structure RedirectInv (s : SyscallTable n) (p : Poll n) (l : List (Fin n)) (a : Check n) :
    Prop where
  bits : ∀ i, a.st.redirect i = if i ∈ l then nextRedirect s p i else s.redirect i
  slots : a.emits.filterMap redirectSlot =
    l.filter fun i => redirectSeen s.bounds (s.known i) p i && !s.redirect i

namespace Check

variable {p : Poll n} {i : Fin n} {e : UInt64} {a : Check n}

/-- The comparison sets the bit of the slot to whether it is redirected, and reports it when the
bit was not set. -/
lemma redirect_compareBaseline {s : SyscallTable n} (hread : p.read i = some e)
    (ha : a.st.ready = true) (hbounds : a.st.bounds = s.bounds)
    (hknown : a.st.known i = s.known i) (hbit : a.st.redirect i = s.redirect i) :
    (compareBaseline p i e a).st.redirect =
        Function.update a.st.redirect i (redirectSeen s.bounds (s.known i) p i) ∧
      (compareBaseline p i e a).emits.filterMap redirectSlot = a.emits.filterMap redirectSlot ++
        if redirectSeen s.bounds (s.known i) p i && !s.redirect i then [i] else [] := by
  rw [compareBaseline, if_neg (by simp [ha]), ← hknown, hbounds]
  cases hc : a.st.captured i with
  | false =>
    have hk : a.st.known i = none := by simp [SyscallTable.known, hc]
    simp [redirectSeen, hread, hk]
  | true =>
    have hk : a.st.known i = some (a.st.baseline i) := by simp [SyscallTable.known, hc]
    rw [if_neg (by simp)]
    by_cases hne : e ≠ a.st.baseline i
    · rw [if_pos hne]
      by_cases hbad : s.bounds.acEntryBadSnapshot e p.ranges (p.inModule i).1 = true
      · simp [redirectSeen, hread, hk, hbad]
      · have hseen : redirectSeen s.bounds (a.st.known i) p i = true := by
          simp [redirectSeen, hread, hk, hbad, hne]
        simp only [hbad, hseen, hbit, Bool.not_false, if_true]
        cases s.redirect i <;> simp [redirectSlot, redirectEvent]
    · rw [if_neg hne]
      simp [redirectSeen, hread, hk, not_not.mp hne]

lemma redirect_classify : (classify p i e a).st.redirect = a.st.redirect ∧
    (classify p i e a).emits.filterMap redirectSlot = a.emits.filterMap redirectSlot := by
  unfold classify
  split_ifs <;> simp [redirectSlot, hookEvent]

end Check

namespace RedirectInv

variable {s : SyscallTable n} {p : Poll n} {l : List (Fin n)} {a : Check n} {i : Fin n}

/-- The loop body keeps the invariant. -/
lemma slot (hi : i ∉ l) (hloop : LoopInv s p l a) (ha : RedirectInv s p l a) :
    RedirectInv s p (l ++ [i]) (a.slot p i) := by
  rw [Check.slot]
  cases hread : p.read i with
  | none =>
    have hseen : redirectSeen s.bounds (s.known i) p i = false := by simp [redirectSeen, hread]
    refine ⟨fun j => ?_, by simp [ha.slots, hseen]⟩
    rcases eq_or_ne j i with rfl | hj
    · simp [ha.bits, hi, nextRedirect, hread]
    · simp [ha.bits, hj]
  | some e =>
    let a₁ : Check n :=
      { a with hash := acSha256Update a.hash (leBytes (Check.liveValue p i a.st)) }
    have hknown : a₁.st.known i = s.known i := by rw [hloop.known, if_neg hi]
    have hbit : a₁.st.redirect i = s.redirect i := by rw [ha.bits, if_neg hi]
    obtain ⟨hbits, hslots⟩ := Check.redirect_compareBaseline (a := a₁) hread hloop.captured.ready
      hloop.bounds hknown hbit
    obtain ⟨hbits', hslots'⟩ := Check.redirect_classify (p := p) (i := i) (e := e)
      (a := Check.compareBaseline p i e a₁)
    refine ⟨fun j => ?_, ?_⟩
    · change (Check.classify p i e (Check.compareBaseline p i e a₁)).st.redirect j = _
      rw [hbits', hbits]
      rcases eq_or_ne j i with rfl | hj
      · simp [nextRedirect, hread]
      · simp [hj, a₁, ha.bits]
    · change (Check.classify p i e (Check.compareBaseline p i e a₁)).emits.filterMap _ = _
      rw [hslots', hslots, ha.slots, List.filter_append]
      cases hb : redirectSeen s.bounds (s.known i) p i && !s.redirect i <;> simp [hb]

/-- The invariant when all slots are done. -/
lemma checkLoop (hs : s.Captured) (p : Poll n) :
    RedirectInv s p (List.finRange n) (Syscalls.checkLoop s p) := by
  have hboth : LoopInv s p (List.finRange n) (Syscalls.checkLoop s p) ∧
      RedirectInv s p (List.finRange n) (Syscalls.checkLoop s p) := by
    refine foldl_invariant (P := fun l a => LoopInv s p l a ∧ RedirectInv s p l a)
      (fun l i a hi ha => ⟨ha.1.slot hs hi, ha.2.slot hi ha.1⟩) (List.nodup_finRange n) ?_
    exact ⟨.init hs p, ⟨fun i => by simp, by simp⟩⟩
  exact hboth.2

end RedirectInv

/-- A call brings the bits for redirects up to date, and emits the event of those that it sets. -/
lemma redirects_of_check {s s' : SyscallTable n} {p : Poll n} {ev : List (Fin n × AcEmit)}
    {out : AcSyscallCheck} (hs : s.Captured) (h : acCheckSyscalls s p = some (s', ev, out)) :
    (∀ i, s'.redirect i = nextRedirect s p i) ∧ ev.filterMap redirectSlot =
      (List.finRange n).filter fun i => redirectSeen s.bounds (s.known i) p i && !s.redirect i := by
  have hinv := RedirectInv.checkLoop hs p
  simp only [acCheckSyscalls, base_ne_zero_of_check h, if_false, Option.some.injEq,
    Prod.mk.injEq] at h
  obtain ⟨rfl, rfl, -⟩ := h
  refine ⟨fun i => ?_, hinv.slots⟩
  rw [hinv.bits, if_pos (List.mem_finRange i)]

/-! ### The bits and the readings -/

lemma lastReading_concat (ps : List (Poll n)) (p : Poll n) (i : Fin n) :
    lastReading (ps ++ [p]) i = if (p.read i).isSome then some p else lastReading ps i := by
  simp only [lastReading, List.reverse_append, List.reverse_singleton, List.singleton_append,
    List.find?_cons]
  cases (p.read i).isSome <;> rfl

lemma lastHandler_concat (ps : List (Poll n)) (p : Poll n) (i : Fin n) :
    lastHandler (ps ++ [p]) i =
      if (p.read i).any (· ≠ 0) then some p else lastHandler ps i := by
  simp only [lastHandler, List.reverse_append, List.reverse_singleton, List.singleton_append,
    List.find?_cons]
  cases (p.read i).any (· ≠ 0) <;> rfl

lemma trusted_concat (read : Fin n → Option UInt64) (ps : List (Poll n)) (p : Poll n)
    (i : Fin n) : trusted read (ps ++ [p]) i = (trusted read ps i).or (p.read i) := by
  rw [trusted, List.map_append, ← List.cons_append, firstRead, List.findSome?_append]
  simp [trusted, firstRead]

/-- The reading that a slot gets its trusted entry from is no redirect. -/
lemma redirectSeen_or (k : TextBounds) (b : Option UInt64) (p : Poll n) (i : Fin n) :
    redirectSeen k (b.or (p.read i)) p i = redirectSeen k b p i := by
  unfold redirectSeen
  cases p.read i with
  | none => simp
  | some e => cases b <;> simp

/-- A later reading does not change what a slot trusts that was read before. -/
lemma any_redirectSeen_concat (k : TextBounds) (read : Fin n → Option UInt64) (ps : List (Poll n))
    (p : Poll n) (i : Fin n) :
    (lastReading ps i).any (redirectSeen k (trusted read (ps ++ [p]) i) · i) =
      (lastReading ps i).any (redirectSeen k (trusted read ps i) · i) := by
  rw [trusted_concat]
  cases hlast : lastReading ps i with
  | none => rfl
  | some q =>
    have hmem : q ∈ ps := List.mem_reverse.mp (List.mem_of_find?_eq_some hlast)
    have hread : (q.read i).isSome = true :=
      List.find?_some (p := fun q : Poll n => (q.read i).isSome) hlast
    have hsome : (trusted read ps i).isSome := by
      rw [trusted, firstRead, List.findSome?_isSome_iff]
      exact ⟨q.read, List.mem_cons_of_mem _ (List.mem_map_of_mem hmem), hread⟩
    obtain ⟨b, hb⟩ := Option.isSome_iff_exists.mp hsome
    rw [hb, Option.some_or]

/-- Unless the last reading was `NULL`, it is that of the last handler. -/
lemma lastHandler_eq_lastReading {ps : List (Poll n)} {i : Fin n}
    (h : (lastReading ps i).bind (·.read i) ≠ some 0) : lastHandler ps i = lastReading ps i := by
  induction ps using List.reverseRecOn with
  | nil => rfl
  | append_singleton ps p ih =>
    rw [lastReading_concat] at h ⊢
    rw [lastHandler_concat]
    cases hread : p.read i with
    | none => simpa [hread] using ih (by simpa [hread] using h)
    | some e =>
      have he : e ≠ 0 := by simpa [hread] using h
      simp [he]

section TableAfter

variable {base : UInt64} (hbase : base ≠ 0) (k : TextBounds) (read : Fin n → Option UInt64)
include hbase

/-- The bit for hooks is that of the last entry other than `NULL`. -/
lemma hooked_tableAfter (ps : List (Poll n)) (i : Fin n) :
    (tableAfter base k read ps).hooked i = (lastHandler ps i).any (hookSeen k · i) := by
  induction ps using List.reverseRecOn with
  | nil => simp [tableAfter, polls, lastHandler, SyscallTable.init]
  | append_singleton ps p ih =>
    obtain ⟨hcap, hb, hbounds, -⟩ := tableAfter_spec k read ps hbase
    obtain ⟨s', ev, out, h⟩ := exists_check hb p
    rw [tableAfter_concat k read ps h, (hooks_of_check hcap h).2.1, lastHandler_concat, nextHooked,
      hbounds]
    cases hread : p.read i with
    | none => simp [ih]
    | some e => by_cases he : e = 0 <;> simp [he, ih]

/-- The bit for redirects is that of the last reading. -/
lemma redirect_tableAfter (ps : List (Poll n)) (i : Fin n) :
    (tableAfter base k read ps).redirect i =
      (lastReading ps i).any (redirectSeen k (trusted read ps i) · i) := by
  induction ps using List.reverseRecOn with
  | nil =>
    simp [tableAfter, polls, lastReading, SyscallTable.init, acCaptureSyscallBaseline, hbase]
  | append_singleton ps p ih =>
    obtain ⟨hcap, hb, hbounds, hknown⟩ := tableAfter_spec k read ps hbase
    obtain ⟨s', ev, out, h⟩ := exists_check hb p
    rw [tableAfter_concat k read ps h, (redirects_of_check hcap h).1, lastReading_concat,
      nextRedirect, hbounds, hknown]
    cases hread : p.read i with
    | none => simpa [any_redirectSeen_concat] using ih
    | some e =>
      rw [trusted_concat]
      exact (redirectSeen_or k (trusted read ps i) p i).symm

end TableAfter

lemma count_filter_finRange (f : Fin n → Bool) (i : Fin n) :
    ((List.finRange n).filter f).count i = if f i then 1 else 0 := by
  cases hf : f i with
  | false => simp [List.count_eq_zero, hf]
  | true => rw [List.count_filter hf]; simp [List.count_eq_one_of_mem, List.nodup_finRange]

/-- For every call after every sequence of calls, and every slot: the `AC_EV_SYSCALL_REDIRECT`
events are the transitions between readings, and so are the `AC_EV_SYSCALL_HOOK` events unless the
entry is hooked, the last reading was `NULL`, and the entry before that was hooked. -/
theorem events_eq_edges_iff (base : UInt64) (k : TextBounds) (read : Fin n → Option UInt64)
    (ps : List (Poll n)) (p : Poll n) {s' : SyscallTable n} {ev : List (Fin n × AcEmit)}
    {out : AcSyscallCheck}
    (h : acCheckSyscalls (tableAfter base k read ps) p = some (s', ev, out)) (i : Fin n) :
    (hookEvents ev i =
        (if hookSeen k p i && !(lastReading ps i).any (hookSeen k · i) then 1 else 0) ↔
      ¬ (hookSeen k p i = true ∧ (lastReading ps i).bind (·.read i) = some 0 ∧
        (lastHandler ps i).any (hookSeen k · i) = true)) ∧
    redirectEvents ev i =
      (if redirectSeen k (trusted read (ps ++ [p]) i) p i &&
        !(lastReading ps i).any (redirectSeen k (trusted read (ps ++ [p]) i) · i)
      then 1 else 0) := by
  have hbase : base ≠ 0 := by
    rintro rfl
    exact base_ne_zero_of_check h (by rw [tableAfter_zero]; rfl)
  obtain ⟨hcap, -, hbounds, hknown⟩ := tableAfter_spec k read ps hbase
  constructor
  · rw [hookEvents, (hooks_of_check hcap h).2.2, count_filter_finRange, hbounds,
      hooked_tableAfter hbase]
    by_cases hnull : (lastReading ps i).bind (·.read i) = some 0
    · have hnot : (lastReading ps i).any (hookSeen k · i) = false := by
        obtain ⟨q, hq, hzero⟩ := Option.bind_eq_some_iff.mp hnull
        simp [hq, hookSeen, hzero]
      rw [hnot]
      cases hookSeen k p i <;> cases (lastHandler ps i).any (hookSeen k · i) <;> simp [hnull]
    · rw [lastHandler_eq_lastReading hnull]
      simp [hnull]
  · rw [redirectEvents, (redirects_of_check hcap h).2, count_filter_finRange, hbounds, hknown,
      redirect_tableAfter hbase, any_redirectSeen_concat, trusted_concat, redirectSeen_or]
    rfl

/-! A slot is hooked, then empty, then hooked again. -/

/-- The three calls. -/
def againPoll (e : UInt64) : Poll 1 := ⟨fun _ => some e, some [], fun _ => (false, false)⟩

/-- The third call, after the other two. -/
def againCall : Option (SyscallTable 1 × List (Fin 1 × AcEmit) × AcSyscallCheck) :=
  acCheckSyscalls (tableAfter 0x5000 sampleBounds (againPoll 0x1100).read
    [againPoll 0x9000, againPoll 0]) (againPoll 0x9000)

/-- The third call does not report the slot, which goes from `NULL` to hooked. -/
theorem hooked_again_not_reported :
    againCall.any (fun r => hookEvents r.2.1 0 = 0) = true ∧
      hookSeen sampleBounds (againPoll 0x9000) 0 = true ∧
      ((lastReading [againPoll 0x9000, againPoll 0] 0).bind (·.read 0)) = some 0 ∧
      (lastReading [againPoll 0x9000, againPoll 0] 0).any (hookSeen sampleBounds · 0) = false := by
  decide +kernel

/-- The second call of the sample reports the slot that was redirected. -/
theorem events_eq_edges_iff_redirected :
    redirectEvents (sampleCall.get sampleCall_isSome).2.1 0 = 1 := by
  refine (events_eq_edges_iff 0x5000 sampleBounds (samplePoll (some 0x1100) none).read
    [samplePoll none (some 0x1200)] (samplePoll (some 0x1300) (some 0x1200))
    (Option.some_get sampleCall_isSome).symm 0).2.trans ?_
  decide +kernel

end Anticheat.Syscalls
