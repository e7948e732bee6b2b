import Anticheat.Registry.Progress

/-!
# Unloading the module

`ac_exit` against protected address spaces that exit on other CPUs: stop the producers, flush
`ac_wq`, clear the registry slot by slot, flush again, destroy the queue. A `flush_workqueue` waits
for the work that was queued when it began, `destroy_workqueue` drains what is queued when it is
called. Registry steps fall between any two steps of `ac_exit`; the producers' calls may start
until the first flush has seen them return.
-/

namespace Anticheat

open Transition

variable {M : Type}

/-- Where `ac_exit` stands. -/
inductive UnloadPc where
  | loaded
  /-- the device and the probes are gone -/
  | stopped
  /-- in the first or the second `flush_workqueue`, waiting for the release work of some slots -/
  | flushing (second : Bool) (waitFor : Slot → Bool)
  /-- in `ac_clear_protected`, about to look at slot `k` -/
  | clearing (k : ℕ)
  /-- in `ac_clear_protected`, unregistering slot `k` as call `c` -/
  | unregistering (k c : ℕ)
  /-- the second flush is over -/
  | drained
  /-- in `destroy_workqueue` -/
  | destroying
  | returned

/-- The registry, the unloading thread, and whether work was queued on `ac_wq` after
`destroy_workqueue` had been called. -/
structure Unload (M : Type) where
  reg : Registry M
  pc : UnloadPc
  queuedLate : Bool

def Unload.init : Unload M := ⟨Registry.init, .loaded, false⟩

inductive UnloadAct (M : Type) where
  | reg (a : RegAct M)
  | stop
  | flush
  | flushed
  | clear
  | next
  | destroy
  | finish

/-- The `ioctl`s and the deferred workers can still enter the registry. -/
def UnloadPc.accepts : UnloadPc → Bool
  | .loaded => true
  | .stopped => true
  | .flushing second _ => !second
  | _ => false

/-- `destroy_workqueue` has been called. -/
def UnloadPc.destroyed : UnloadPc → Bool
  | .destroying => true
  | .returned => true
  | _ => false

def UnloadPc.isReturned : UnloadPc → Bool
  | .returned => true
  | _ => false

/-- Whether the registry step can happen now: only `ac_exit` itself clears slots, and there are no
workers without a queue. -/
def UnloadPc.allows (pc : UnloadPc) : RegAct M → Bool
  | .addEnter _ _ _ _ => pc.accepts
  | .delEnter _ => pc.accepts
  | .clearEnter _ => false
  | .workUnregister _ => match pc with | .returned => false | _ => true
  | .workFinish _ => match pc with | .returned => false | _ => true
  | _ => true

/-- A finished work item is no longer waited for. -/
def UnloadPc.finish (a : RegAct M) : UnloadPc → UnloadPc
  | .flushing second waitFor =>
    match a with
    | .workFinish i => .flushing second (Function.update waitFor i false)
    | _ => .flushing second waitFor
  | pc => pc

def RegAct.queues : RegAct M → Bool
  | .queueRelease _ => true
  | _ => false

def Registry.allReturned (s : Registry M) : Bool := s.calls.all fun call => call.pc.isReturned

def Registry.busy (s : Registry M) (i : Slot) : Bool := s.work i != .idle

def Unload.step [DecidableEq M] (s : Unload M) : UnloadAct M → Option (Unload M)
  | .reg a =>
    if s.pc.allows a then
      (s.reg.step a).map fun reg =>
        ⟨reg, s.pc.finish a, s.queuedLate || (a.queues && s.pc.destroyed)⟩
    else none
  | .stop =>
    match s.pc with
    | .loaded => some { s with pc := .stopped }
    | _ => none
  | .flush =>
    match s.pc with
    | .stopped => some { s with pc := .flushing false s.reg.busy }
    | .clearing k => if k = acProtMax then some { s with pc := .flushing true s.reg.busy } else none
    | _ => none
  | .flushed =>
    match s.pc with
    | .flushing second waitFor =>
      if ∀ i, waitFor i = false then
        if second then some { s with pc := .drained }
        else if s.reg.allReturned then some { s with pc := .clearing 0 }
        else none
      else none
    | _ => none
  | .clear =>
    match s.pc with
    | .clearing k =>
      if h : k < acProtMax then
        let reg := s.reg.clearEnter ⟨k, h⟩
        if reg.calls.length = s.reg.calls.length then
          some { s with reg := reg, pc := .clearing (k + 1) }
        else some { s with reg := reg, pc := .unregistering k s.reg.calls.length }
      else none
    | _ => none
  | .next =>
    match s.pc with
    | .unregistering k c =>
      if (s.reg.calls[c]?).any fun call => call.pc.isReturned then
        some { s with pc := .clearing (k + 1) }
      else none
    | _ => none
  | .destroy =>
    match s.pc with
    | .drained => some { s with pc := .destroying }
    | _ => none
  | .finish =>
    match s.pc with
    | .destroying => if ∀ i, s.reg.busy i = false then some { s with pc := .returned } else none
    | _ => none

/-! ### The registry once no call can enter it -/

section Closed

variable {s s' : Registry M} {owner : Slot → Owner M} {i : Slot} {k c : ℕ}

/-- Every call but `c` has returned. -/
def Registry.OthersReturned (s : Registry M) (c : ℕ) : Prop :=
  ∀ (d : ℕ) (call : Call M), s.calls[d]? = some call → d ≠ c → call.pc.slot = none

/-- Every call has returned. -/
def Registry.Settled (s : Registry M) : Prop :=
  ∀ (d : ℕ) (call : Call M), s.calls[d]? = some call → call.pc.slot = none

/-- The slots below `k` are empty. -/
def Registry.Emptied (s : Registry M) (k : ℕ) : Prop :=
  ∀ i : Slot, i.val < k → (s.prots i).mm = .null

/-- Call `c` has slot `k` marked and is in or just past its `mmu_notifier_unregister`. -/
def Registry.UnregisteringAt (s : Registry M) (k c : ℕ) : Prop :=
  ∃ i : Slot, i.val = k ∧ ∃ call, s.calls[c]? = some call ∧
    (call.pc = .unregistering i ∨ call.pc = .unregistered i)

/-- The step enters the registry through one of its three entry points. -/
def RegAct.enters : RegAct M → Bool
  | .addEnter _ _ _ _ => true
  | .delEnter _ => true
  | .clearEnter _ => true
  | _ => false

lemma Registry.settled_of_allReturned (h : s.allReturned = true) : s.Settled := by
  intro d call hd
  have hall := List.all_eq_true.mp h call (List.mem_of_getElem? hd)
  exact CallPc.slot_eq_none_iff.mpr hall

/-- Without calls in flight an empty slot is free or left to the exit path. -/
lemma Registry.Owned.owner_of_settled (h : s.Owned owner) (hs : s.Settled)
    (hmm : (s.prots i).mm = .null) : owner i = .free ∨ ∃ m, owner i = .exit m := by
  cases ho : owner i with
  | free => exact .inl rfl
  | exit m => exact .inr ⟨m, rfl⟩
  | live m =>
    have hi := h.slots i
    rw [ho] at hi
    cases hi with
    | live _ hmm' => exact absurd (hmm.symm.trans hmm') nofun
  | call c m pc =>
    obtain ⟨hslot, kind, hc⟩ := h.calls.holder i c m pc ho
    exact absurd (hslot.symm.trans (hs c _ hc)) nofun

/-- `ac_mmu_release` is past its critical section and short of `queue_work`. -/
def Notifier.isCleared : Notifier M → Bool
  | .cleared _ _ _ => true
  | _ => false

def Registry.NoneCleared (s : Registry M) : Prop := ∀ i, (s.notifier i).isCleared = false

/-- With every slot empty and no call in flight, only release work is left to do. -/
lemma Registry.Owned.notifier_of_emptied (h : s.Owned owner) (hs : s.Settled)
    (he : s.Emptied acProtMax) (i : Slot) :
    s.notifier i = .idle ∨ (s.notifier i).isCleared = true ∨ s.work i ≠ .idle := by
  have hi := h.slots i
  rcases h.owner_of_settled hs (he i i.isLt) with ho | ⟨m, ho⟩
  · rw [ho] at hi
    cases hi with
    | free _ _ hn _ => exact .inl hn
  · rw [ho] at hi
    generalize hw : s.work i = w at hi
    cases hi with
    | cleared _ pid comm _ _ hn _ => exact .inr (.inl (by rw [hn]; rfl))
    | queued _ _ _ _ _ hw' => exact .inr (.inr (by simp [hw']))
    | dropped _ _ _ _ hw' => exact .inr (.inr (by simp [hw']))

/-- Slot `k` is done: the slots up to it are empty. -/
lemma Registry.Emptied.succ (h : s.Emptied k)
    (hk : ∃ i : Slot, i.val = k ∧ (s.prots i).mm = .null) : s.Emptied (k + 1) := by
  obtain ⟨i, hi, hmm⟩ := hk
  intro j hj
  rcases Nat.lt_succ_iff_lt_or_eq.mp hj with hj | hj
  · exact h j hj
  · rwa [Fin.ext (hj.trans hi.symm)]

/-- What one iteration of `ac_clear_protected` finds when no other call is in flight. -/
lemma Registry.Owned.clearEnter_cases (h : s.Owned owner) (hs : s.Settled) (i : Slot) :
    (s.clearEnter i = s ∧ (s.prots i).mm = .null) ∨
      ∃ m, s.clearEnter i = (s.setSlot i { s.prots i with removing := true }).newCall m .clear
        (.unregistering i) := by
  have hnocall : ∀ c m pc, owner i ≠ .call c m pc := by
    intro c m pc ho
    obtain ⟨hslot, kind, hc⟩ := h.calls.holder i c m pc ho
    exact absurd (hslot.symm.trans (hs c _ hc)) nofun
  unfold Registry.clearEnter
  cases hmm : (s.prots i).mm with
  | null => exact .inl ⟨rfl, rfl⟩
  | reserved =>
    obtain ⟨c, m, pc, ho, -⟩ := (h.slots i).owner_reserved hmm
    exact absurd ho (hnocall c m pc)
  | mm m =>
    cases hrem : (s.prots i).removing with
    | false => exact .inr ⟨m, rfl⟩
    | true =>
      obtain ⟨c, ho⟩ := (h.slots i).owner_removing hmm hrem
      exact absurd ho (hnocall c m _)

lemma Registry.Settled.unregistering {hk : k < acProtMax} (hs : s.Settled) (he : s.Emptied k)
    (m : M) :
    let r := (s.setSlot ⟨k, hk⟩ { s.prots ⟨k, hk⟩ with removing := true }).newCall m .clear
      (.unregistering ⟨k, hk⟩)
    r.OthersReturned s.calls.length ∧ r.Emptied k ∧
      (r.UnregisteringAt k s.calls.length ∨ ∃ i : Slot, i.val = k ∧ (r.prots i).mm = .null) := by
  refine ⟨fun d call hd hne => ?_, fun i hi => ?_,
    .inl ⟨⟨k, hk⟩, rfl, ⟨m, .clear, .unregistering ⟨k, hk⟩⟩, ?_, .inl rfl⟩⟩
  · rcases CallsOk.getElem?_snoc hd with hd | ⟨rfl, -⟩
    · exact hs d call hd
    · exact absurd rfl hne
  · have hik : i ≠ ⟨k, hk⟩ := by
      rintro rfl
      exact absurd hi (lt_irrefl k)
    simpa [Function.update_of_ne hik] using he i hi
  · exact List.getElem?_concat_length

variable [DecidableEq M] {a : RegAct M}

/-- A step that enters nothing leaves other calls alone. -/
lemma Registry.OthersReturned.step (h : s.OthersReturned c) (ha : a.enters = false)
    (hstep : s.step a = some s') : s'.OthersReturned c := by
  have hset : ∀ d call pc, s.calls[d]? = some call → call.pc.slot ≠ none →
      ∀ e call', (s.calls.set d { call with pc := pc })[e]? = some call' → e ≠ c →
        call'.pc.slot = none := by
    intro d call pc hd hslot e call' he hec
    have hdc : d = c := by
      by_contra hdc
      exact hslot (h d call hd hdc)
    rw [List.getElem?_set_ne (by rw [hdc]; exact Ne.symm hec)] at he
    exact h e call' he hec
  cases Registry.rule_of_step hstep with
  | registerOk d call _ hd hpc | registerFail d call _ _ hd hpc | settleFail d call _ _ hd hpc
  | settleCancel d call _ hd hpc | settlePublish d call _ _ _ _ hd hpc
  | unregReturn d call _ hd hpc | finish d call _ hd hpc =>
    exact hset d call _ hd (by rw [hpc]; nofun)
  | unregBegin | exit | releaseCaller | releaseOrganic | releaseStale | queueRelease
  | workUnregister | workFinish => exact h
  | _ => cases ha

lemma Registry.Settled.step (h : s.Settled) (ha : a.enters = false)
    (hstep : s.step a = some s') : s'.Settled := by
  -- a call beyond the list is nobody, so all others are all
  intro d call hd
  have hothers : s.OthersReturned (d + 1) := fun e call he _ => h e call he
  exact hothers.step ha hstep d call hd (Nat.ne_of_lt (Nat.lt_succ_self d))

/-- An empty slot is filled by a claim only. -/
lemma Registry.Owned.mm_null_of_step (h : s.Owned owner) (ha : a.enters = false)
    (hstep : s.step a = some s') (hmm : (s.prots i).mm = .null) : (s'.prots i).mm = .null := by
  have heff := Registry.entryStep_of_step hstep i
  generalize s'.prots i = e at heff
  cases heff with
  | refreshed | claimed => cases ha
  | published c call pid comm jit hc hpc hkind hcancel =>
    have hi := h.slot_of_call hc (i := i) (by rw [hpc]; rfl)
    rw [hpc] at hi
    cases hi with
    | registered _ _ _ hres => exact absurd (hmm.symm.trans hres) nofun
  | cleared a e hnull hjit => exact hnull
  | same | cancelled | marked => exact hmm

lemma Registry.Emptied.step (he : s.Emptied k) (h : s.Owned owner) (ha : a.enters = false)
    (hstep : s.step a = some s') : s'.Emptied k :=
  fun i hi => h.mm_null_of_step ha hstep (he i hi)

/-- The slot that `ac_clear_protected` is unregistering ends up empty. -/
lemma Registry.UnregisteringAt.step (hu : s.UnregisteringAt k c) (h : s.Owned owner)
    (ha : a.enters = false) (hstep : s.step a = some s') :
    s'.UnregisteringAt k c ∨ ∃ i : Slot, i.val = k ∧ (s'.prots i).mm = .null := by
  obtain ⟨i, hik, call, hc, hpc⟩ := hu
  have hsame : ∀ calls : List (Call M), calls[c]? = some call →
      ∃ i : Slot, i.val = k ∧ ∃ call, calls[c]? = some call ∧
        (call.pc = .unregistering i ∨ call.pc = .unregistered i) :=
    fun calls hcalls => ⟨i, hik, call, hcalls, hpc⟩
  have hset : ∀ d call' pc, s.calls[d]? = some call' →
      (∀ j, call'.pc ≠ .unregistering j ∧ call'.pc ≠ .unregistered j) →
      (s.calls.set d { call' with pc := pc })[c]? = some call := by
    intro d call' pc hd hne
    have hdc : d ≠ c := by
      rintro rfl
      obtain rfl : call = call' := Option.some.inj (hc.symm.trans hd)
      rcases hpc with hpc | hpc
      · exact (hne i).1 hpc
      · exact (hne i).2 hpc
    rw [List.getElem?_set_ne hdc, hc]
  cases Registry.rule_of_step hstep with
  | registerOk d call' _ hd hpc' | registerFail d call' _ _ hd hpc'
  | settleFail d call' _ _ hd hpc' | settleCancel d call' _ hd hpc'
  | settlePublish d call' _ _ _ _ hd hpc' =>
    exact .inl (hsame _ (hset d call' _ hd (by simp [hpc'])))
  | unregReturn d call' j hd hpc' hquiet =>
    by_cases hdc : d = c
    · subst hdc
      obtain rfl : call = call' := Option.some.inj (hc.symm.trans hd)
      obtain rfl : j = i := by simpa [hpc'] using hpc
      refine .inl ⟨j, hik, _, List.getElem?_set_self (List.getElem?_eq_some_iff.mp hc).1, .inr rfl⟩
    · exact .inl (hsame _ (by rw [← hc]; exact List.getElem?_set_ne hdc))
  | finish d call' j hd hpc' =>
    by_cases hdc : d = c
    · subst hdc
      obtain rfl : call = call' := Option.some.inj (hc.symm.trans hd)
      obtain rfl : j = i := by simpa [hpc'] using hpc
      have hj := h.slot_of_call hd (i := j) (by rw [hpc']; rfl)
      rw [hpc'] at hj
      cases hj with
      | unregistered _ _ hmm => exact .inr ⟨j, hik, by simp [hmm]⟩
    · exact .inl (hsame _ (by rw [← hc]; exact List.getElem?_set_ne hdc))
  | unregBegin | exit | releaseCaller | releaseOrganic | releaseStale | queueRelease
  | workUnregister | workFinish => exact .inl (hsame _ hc)
  | _ => cases ha

/-- In an emptied registry no new callback gets that far. -/
lemma Registry.NoneCleared.step (hn : s.NoneCleared) (he : s.Emptied acProtMax)
    (hstep : s.step a = some s') : s'.NoneCleared := by
  intro i
  cases hni : s'.notifier i with
  | cleared m pid comm =>
    rcases Registry.cleared_of_step hstep hni with hni | ⟨-, hmm, -⟩
    · simpa [hni, Notifier.isCleared] using hn i
    · exact absurd (hmm.symm.trans (he i i.isLt)) nofun
  | _ => rfl

/-- Release work comes from a callback that is past its critical section. -/
lemma Registry.NoneCleared.work_idle (hn : s.NoneCleared) (hw : ∀ i, s.work i = .idle)
    (hstep : s.step a = some s') : ∀ i, s'.work i = .idle := by
  cases Registry.rule_of_step hstep with
  | queueRelease i m pid comm hni =>
    have hi := hn i
    simp [hni, Notifier.isCleared] at hi
  | workUnregister i m hwi hrel hquiet => exact absurd ((hw i).symm.trans hwi) nofun
  | workFinish i hwi => exact absurd ((hw i).symm.trans hwi) nofun
  | _ => exact hw

end Closed

/-! ### `ac_exit` step by step -/

/-- What is known at each point of `ac_exit`. -/
def Unload.PcOk (s : Unload M) : Prop :=
  match s.pc with
  | .loaded => True
  | .stopped => True
  | .flushing false _ => True
  | .clearing k => s.reg.Settled ∧ s.reg.Emptied k
  | .unregistering k c => s.reg.OthersReturned c ∧ s.reg.Emptied k ∧
      (s.reg.UnregisteringAt k c ∨ ∃ i : Slot, i.val = k ∧ (s.reg.prots i).mm = .null)
  | .flushing true _ => s.reg.Settled ∧ s.reg.Emptied acProtMax
  | .drained => s.reg.Settled ∧ s.reg.Emptied acProtMax
  | .destroying => s.reg.Settled ∧ s.reg.Emptied acProtMax ∧ s.reg.NoneCleared
  | .returned => s.reg.Settled ∧ s.reg.Emptied acProtMax ∧ s.reg.NoneCleared ∧
      ∀ i, s.reg.work i = .idle

structure Unload.Inv [DecidableEq M] (s : Unload M) : Prop where
  reg : s.reg.Inv
  pc : s.PcOk
  onTime : s.queuedLate = false

/-- When `destroy_workqueue` is called, no `ac_mmu_release` is between its critical section and
its `queue_work`. -/
def Unload.noneCleared (s : Unload M) : UnloadAct M → Bool
  | .destroy => (List.finRange acProtMax).all fun i => !(s.reg.notifier i).isCleared
  | _ => true

section Unloading

variable {s s' : Unload M} {a : RegAct M}

lemma UnloadPc.enters_of_allows {pc : UnloadPc} (h : pc.allows a = true)
    (hpc : pc.accepts = false) : a.enters = false := by
  cases a <;> simp_all [UnloadPc.allows, RegAct.enters]

variable [DecidableEq M]

/-- Registry steps keep what `ac_exit` has established. -/
lemma Unload.PcOk.reg_step {r : Registry M} (h : s.PcOk) (hreg : s.reg.Inv)
    (hallow : s.pc.allows a = true) (hstep : s.reg.step a = some r) (late : Bool) :
    Unload.PcOk ⟨r, s.pc.finish a, late⟩ := by
  obtain ⟨owner, howned⟩ := hreg.owned
  obtain ⟨reg, pc, late'⟩ := s
  have hent := UnloadPc.enters_of_allows hallow
  cases pc with
  | loaded => trivial
  | stopped => trivial
  | flushing second waitFor =>
    cases second with
    | false => cases a <;> trivial
    | true =>
      have hkeep : r.Settled ∧ r.Emptied acProtMax :=
        ⟨h.1.step (hent rfl) hstep, h.2.step howned (hent rfl) hstep⟩
      cases a <;> exact hkeep
  | clearing k => exact ⟨h.1.step (hent rfl) hstep, h.2.step howned (hent rfl) hstep⟩
  | unregistering k c =>
    refine ⟨h.1.step (hent rfl) hstep, h.2.1.step howned (hent rfl) hstep, ?_⟩
    rcases h.2.2 with hu | ⟨i, hi, hmm⟩
    · exact hu.step howned (hent rfl) hstep
    · exact .inr ⟨i, hi, howned.mm_null_of_step (hent rfl) hstep hmm⟩
  | drained => exact ⟨h.1.step (hent rfl) hstep, h.2.step howned (hent rfl) hstep⟩
  | destroying =>
    exact ⟨h.1.step (hent rfl) hstep, h.2.1.step howned (hent rfl) hstep,
      h.2.2.step h.2.1 hstep⟩
  | returned =>
    exact ⟨h.1.step (hent rfl) hstep, h.2.1.step howned (hent rfl) hstep,
      h.2.2.1.step h.2.1 hstep, h.2.2.1.work_idle h.2.2.2 hstep⟩

/-- After `destroy_workqueue` no callback is left that could queue work. -/
lemma Unload.PcOk.not_queues {r : Registry M} (h : s.PcOk) (hpc : s.pc.destroyed = true)
    (hstep : s.reg.step a = some r) : a.queues = false := by
  obtain ⟨reg, pc, late⟩ := s
  have hnone : reg.NoneCleared := by
    cases pc with
    | destroying => exact h.2.2
    | returned => exact h.2.2.1
    | _ => cases hpc
  cases Registry.rule_of_step hstep with
  | queueRelease i m pid comm hni =>
    have hi : (Notifier.cleared m pid comm).isCleared = false := hni ▸ hnone i
    cases hi
  | _ => rfl

lemma Unload.Inv.init : (Unload.init : Unload M).Inv := ⟨Registry.Inv.init, trivial, rfl⟩

/-- A turn of the loop that clears the slots: the slot is empty, or a call begins to remove its
entry. -/
lemma Unload.Inv.clear (h : s.Inv) (hstep : s.step .clear = some s') : s'.Inv := by
  obtain ⟨owner, howned⟩ := h.reg.owned
  have hpc := h.pc
  simp only [Unload.step] at hstep
  split at hstep
  · next k hk =>
    rw [Unload.PcOk, hk] at hpc
    split_ifs at hstep with hlt hlen
    · cases hstep
      have hinv := h.reg.step (a := .clearEnter ⟨k, hlt⟩) rfl
      rcases howned.clearEnter_cases hpc.1 ⟨k, hlt⟩ with ⟨heq, hnull⟩ | ⟨m, heq⟩
      · refine ⟨hinv, ?_, h.onTime⟩
        simp only [Unload.PcOk, heq]
        exact ⟨hpc.1, hpc.2.succ ⟨⟨k, hlt⟩, rfl, hnull⟩⟩
      · simp [heq] at hlen
    · cases hstep
      have hinv := h.reg.step (a := .clearEnter ⟨k, hlt⟩) rfl
      rcases howned.clearEnter_cases hpc.1 ⟨k, hlt⟩ with ⟨heq, hnull⟩ | ⟨m, heq⟩
      · exact absurd (by rw [heq]) hlen
      · refine ⟨hinv, ?_, h.onTime⟩
        simp only [Unload.PcOk, heq]
        exact hpc.1.unregistering hpc.2 m
  · cases hstep

/-- The call that removes the entry has returned, so the slot is empty. -/
lemma Unload.Inv.next (h : s.Inv) (hstep : s.step .next = some s') : s'.Inv := by
  have hpc := h.pc
  simp only [Unload.step] at hstep
  split at hstep
  · next k c hk =>
    rw [Unload.PcOk, hk] at hpc
    split_ifs at hstep with hret
    cases hstep
    obtain ⟨call, hc, hcall⟩ := (Option.any_eq_true _ _).mp hret
    rw [← CallPc.slot_eq_none_iff] at hcall
    refine ⟨h.reg, ⟨fun d call' hd => ?_, hpc.2.1.succ (hpc.2.2.resolve_left ?_)⟩, h.onTime⟩
    · by_cases hdc : d = c
      · subst hdc
        obtain rfl : call = call' := Option.some.inj (hc.symm.trans hd)
        exact hcall
      · exact hpc.1 d call' hd hdc
    · rintro ⟨i, -, call', hc', hpc'⟩
      obtain rfl : call = call' := Option.some.inj (hc.symm.trans hc')
      rcases hpc' with hpc' | hpc' <;> simp [hpc', CallPc.slot] at hcall
  · cases hstep

theorem Unload.Inv.step {b : UnloadAct M} (h : s.Inv) (hok : s.noneCleared b = true)
    (hstep : s.step b = some s') : s'.Inv := by
  have hpc := h.pc
  cases b with
  | reg a =>
    simp only [Unload.step] at hstep
    split_ifs at hstep with hallow
    obtain ⟨r, hr, rfl⟩ := Option.map_eq_some_iff.mp hstep
    refine ⟨h.reg.step hr, hpc.reg_step h.reg hallow hr _, ?_⟩
    cases hd : s.pc.destroyed with
    | false => simp [h.onTime]
    | true => simp [h.onTime, hpc.not_queues hd hr]
  | stop =>
    simp only [Unload.step] at hstep
    split at hstep <;> cases hstep
    exact ⟨h.reg, trivial, h.onTime⟩
  | flush =>
    simp only [Unload.step] at hstep
    split at hstep
    · cases hstep
      exact ⟨h.reg, trivial, h.onTime⟩
    · next k hk =>
      split_ifs at hstep with hmax
      cases hstep
      subst hmax
      rw [Unload.PcOk, hk] at hpc
      exact ⟨h.reg, hpc, h.onTime⟩
    · cases hstep
  | flushed =>
    simp only [Unload.step] at hstep
    split at hstep
    · next second waitFor hk =>
      rw [Unload.PcOk, hk] at hpc
      split_ifs at hstep with hwait hsecond hret
      · cases hstep
        subst hsecond
        exact ⟨h.reg, hpc, h.onTime⟩
      · cases hstep
        exact ⟨h.reg, ⟨Registry.settled_of_allReturned hret, nofun⟩, h.onTime⟩
    · cases hstep
  | clear => exact h.clear hstep
  | next => exact h.next hstep
  | destroy =>
    simp only [Unload.step] at hstep
    split at hstep
    · next hk =>
      rw [Unload.PcOk, hk] at hpc
      cases hstep
      refine ⟨h.reg, ⟨hpc.1, hpc.2, fun i => ?_⟩, h.onTime⟩
      have hall := List.all_eq_true.mp hok i (List.mem_finRange i)
      simpa using hall
    · cases hstep
  | finish =>
    simp only [Unload.step] at hstep
    split at hstep
    · next hk =>
      rw [Unload.PcOk, hk] at hpc
      split_ifs at hstep with hidle
      cases hstep
      refine ⟨h.reg, ⟨hpc.1, hpc.2.1, hpc.2.2, fun i => ?_⟩, h.onTime⟩
      simpa [Registry.busy] using hidle i
    · cases hstep

lemma Unload.Inv.of_run {bs : List (UnloadAct M)} (h : s.Inv)
    (hrun : run (restrict Unload.noneCleared Unload.step) s bs = some s') : s'.Inv := by
  refine run_invariant (fun t b t' ht hstep => ?_) h hrun
  obtain ⟨hok, hstep⟩ := restrict_eq_some.mp hstep
  exact ht.step hok hstep

/-- Along every run in which no callback is between its critical section and its `queue_work` when
`destroy_workqueue` is called, no work is queued after that call, and when `ac_exit` has returned
every registration is undone and no callback or worker is left. -/
theorem acExit_quiesces {bs : List (UnloadAct M)}
    (hrun : run (restrict Unload.noneCleared Unload.step) Unload.init bs = some s) :
    s.queuedLate = false ∧
    (s.pc.isReturned = true → ∀ i, Transition.run (NotifierEv.apply i) none s.reg.log = some none ∧
      s.reg.notifier i = .idle ∧ s.reg.work i = .idle) := by
  have hinv := Unload.Inv.init.of_run hrun
  refine ⟨hinv.onTime, fun hret i => ?_⟩
  have hpc : s.reg.Settled ∧ s.reg.Emptied acProtMax ∧ s.reg.NoneCleared ∧
      ∀ i, s.reg.work i = .idle := by
    have hpc := hinv.pc
    unfold Unload.PcOk at hpc
    split at hpc <;> simp_all [UnloadPc.isReturned]
  obtain ⟨hsettled, hempty, hnone, hwork⟩ := hpc
  obtain ⟨owner, howned⟩ := hinv.reg.owned
  have hidle : s.reg.notifier i = .idle := by
    rcases howned.notifier_of_emptied hsettled hempty i with hn | hn | hw
    · exact hn
    · exact absurd (hn.symm.trans (hnone i)) nofun
    · exact absurd (hwork i) hw
  refine ⟨?_, hidle, hwork i⟩
  rw [hinv.reg.paired i, hidle]
  rfl

end Unloading

/-- An address space is protected and exits; its callback has cleared the slot. -/
def exitingRun : List (UnloadAct ℕ) :=
  [.reg (.addEnter 7 100 "game" false), .reg (.register 0 0), .reg (.addSettle 0), .reg (.exit 7),
    .reg (.release 0)]

/-- `ac_exit` with nothing left to clear. -/
def clearRun : List (UnloadAct ℕ) :=
  .flushed :: List.replicate acProtMax .clear ++ [.flush, .flushed, .destroy, .finish]

/-- The callback queues its work, and the first flush waits for it. -/
def unloadRun : List (UnloadAct ℕ) :=
  exitingRun ++ [.reg (.queueRelease 0), .stop, .flush, .reg (.workUnregister 0),
    .reg (.workFinish 0)] ++ clearRun

lemma unloadRun_runs :
    (run (restrict Unload.noneCleared Unload.step) Unload.init unloadRun).isSome = true := by
  decide +kernel

theorem acExit_quiesces_unloadRun :
    ∃ s, run (restrict Unload.noneCleared Unload.step) Unload.init unloadRun = some s ∧
      s.queuedLate = false ∧ s.reg.notifier 0 = .idle := by
  have hrun := (Option.some_get unloadRun_runs).symm
  obtain ⟨hlate, hret⟩ := acExit_quiesces hrun
  exact ⟨_, hrun, hlate, (hret (by decide +kernel) 0).2.1⟩

/-- The callback is held up before its `queue_work` while `ac_exit` runs to its end: neither flush
has anything to wait for, and the slot scan finds no mm. -/
def lateRun : List (UnloadAct ℕ) := exitingRun ++ [.stop, .flush] ++ clearRun

lemma lateRun_runs : (run Unload.step Unload.init lateRun).isSome = true := by
  decide +kernel

lemma lateRun_queues : (((run Unload.step Unload.init lateRun).get lateRun_runs).step
    (.reg (.queueRelease 0))).isSome = true := by
  decide +kernel

theorem acExit_queues_late :
    ∃ s s', run Unload.step Unload.init lateRun = some s ∧ s.pc.isReturned = true ∧
      run (NotifierEv.apply 0) none s.reg.log = some (some 7) ∧
      s.step (.reg (.queueRelease 0)) = some s' ∧ s'.queuedLate = true := by
  refine ⟨_, _, (Option.some_get lateRun_runs).symm, ?_, ?_,
    (Option.some_get lateRun_queues).symm, ?_⟩ <;> decide +kernel

end Anticheat
