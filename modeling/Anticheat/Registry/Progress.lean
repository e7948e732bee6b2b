import Anticheat.Registry.Invariant
import Mathlib.Algebra.BigOperators.Fin
import Mathlib.Algebra.Order.BigOperators.Group.Finset

/-!
# Every started operation can finish

No reachable state of the registry is stuck: while a call, a callback or a release worker is
unfinished, one of them can take a step, and each such step makes `Registry.todo` smaller.
-/

namespace Anticheat

open Transition

variable {M : Type}

/-- A step of an operation that has already started. -/
def RegAct.isPending : RegAct M → Bool
  | .addEnter _ _ _ _ => false
  | .delEnter _ => false
  | .clearEnter _ => false
  | .exit _ => false
  | _ => true

/-- `ac_mmu_release` is running. -/
def Notifier.inCallback : Notifier M → Bool
  | .releasing _ => true
  | .cleared _ _ _ => true
  | _ => false

/-- Nothing is in flight: no call, no callback, no release work. -/
structure Registry.Quiet (s : Registry M) : Prop where
  calls : ∀ call ∈ s.calls, call.pc.isReturned = true
  callback : ∀ i, (s.notifier i).inCallback = false
  work : ∀ i, s.work i = .idle

/-! ### The measure -/

def CallPc.todo : CallPc → ℕ
  | .registering _ => 9
  | .registered _ _ => 3
  | .unregistering _ => 2
  | .unregistered _ => 1
  | .returned _ => 0

def Notifier.todo : Notifier M → ℕ
  | .hashed _ => 5
  | .releasing _ => 4
  | .cleared _ _ _ => 3
  | _ => 0

def ReleaseWork.todo : ReleaseWork → ℕ
  | .queued => 2
  | .unregistered => 1
  | .idle => 0

/-- A bound on the steps that started operations can still take. -/
def Registry.todo (s : Registry M) : ℕ :=
  (s.calls.map fun call => call.pc.todo).sum + ∑ i, ((s.notifier i).todo + (s.work i).todo)

lemma sum_todo_set {calls : List (Call M)} {c : ℕ} {call : Call M} (hc : calls[c]? = some call)
    (pc : CallPc) :
    ((calls.set c { call with pc := pc }).map fun call => call.pc.todo).sum + call.pc.todo =
      (calls.map fun call => call.pc.todo).sum + pc.todo := by
  induction calls generalizing c with
  | nil => cases hc
  | cons x xs ih =>
    cases c with
    | zero =>
      obtain rfl : x = call := by simpa using hc
      simp only [List.set_cons_zero, List.map_cons, List.sum_cons]
      omega
    | succ c =>
      have hx := ih (c := c) (by simpa using hc)
      simp only [List.set_cons_succ, List.map_cons, List.sum_cons]
      omega

/-- Two functions that differ at one slot only. -/
lemma sum_add_eq_of_ne {f g : Slot → ℕ} {i : Slot} (h : ∀ j, j ≠ i → g j = f j) :
    ∑ j, g j + f i = ∑ j, f j + g i := by
  have hrest : ∑ j ∈ Finset.univ.erase i, g j = ∑ j ∈ Finset.univ.erase i, f j :=
    Finset.sum_congr rfl fun j hj => h j (Finset.ne_of_mem_erase hj)
  rw [← Finset.add_sum_erase Finset.univ f (Finset.mem_univ i),
    ← Finset.add_sum_erase Finset.univ g (Finset.mem_univ i), hrest]
  omega

variable {s s' : Registry M}

lemma Registry.sum_slots {i : Slot} {n : Notifier M} {w : ReleaseWork}
    (hnot : s'.notifier = Function.update s.notifier i n)
    (hwork : s'.work = Function.update s.work i w) :
    ∑ j, ((s'.notifier j).todo + (s'.work j).todo) + ((s.notifier i).todo + (s.work i).todo) =
      ∑ j, ((s.notifier j).todo + (s.work j).todo) + (n.todo + w.todo) := by
  have hsum := sum_add_eq_of_ne (i := i) (f := fun j => (s.notifier j).todo + (s.work j).todo)
    (g := fun j => (s'.notifier j).todo + (s'.work j).todo) fun j hj => by
      simp only [hnot, hwork, Function.update_of_ne hj]
  simpa only [hnot, hwork, Function.update_self] using hsum

/-- A step of call `c` on slot `i`. -/
lemma Registry.todo_lt_of_call {c : ℕ} {call : Call M} {i : Slot} {pc : CallPc} {n : Notifier M}
    (hc : s.calls[c]? = some call) (hcalls : s'.calls = s.calls.set c { call with pc := pc })
    (hnot : s'.notifier = Function.update s.notifier i n) (hwork : s'.work = s.work)
    (h : pc.todo + n.todo < call.pc.todo + (s.notifier i).todo) : s'.todo < s.todo := by
  have hset := sum_todo_set hc pc
  have hsum := Registry.sum_slots (w := s.work i) hnot
    (by rw [hwork, Function.update_eq_self])
  unfold Registry.todo
  rw [hcalls]
  omega

/-- A step of a callback or a worker on slot `i`. -/
lemma Registry.todo_lt_of_slot {i : Slot} {n : Notifier M} {w : ReleaseWork}
    (hcalls : s'.calls = s.calls) (hnot : s'.notifier = Function.update s.notifier i n)
    (hwork : s'.work = Function.update s.work i w)
    (h : n.todo + w.todo < (s.notifier i).todo + (s.work i).todo) : s'.todo < s.todo := by
  have hsum := Registry.sum_slots hnot hwork
  unfold Registry.todo
  rw [hcalls]
  omega

variable [DecidableEq M] {owner : Slot → Owner M} {a : RegAct M}

/-- Started operations do not run for ever. -/
lemma Registry.todo_lt_of_step (ha : a.isPending = true) (hstep : s.step a = some s') :
    s'.todo < s.todo := by
  have hn := fun i => (Function.update_eq_self i s.notifier).symm
  have hw := fun i => (Function.update_eq_self i s.work).symm
  cases Registry.rule_of_step hstep with
  | registerOk c call i hc hpc =>
    refine Registry.todo_lt_of_call hc rfl rfl rfl ?_
    rw [hpc]
    simp only [CallPc.todo, Notifier.todo]
    omega
  | registerFail c call i ret hc hpc hret =>
    refine Registry.todo_lt_of_call hc rfl (hn i) rfl ?_
    rw [hpc]
    simp only [CallPc.todo]
    omega
  | settleFail c call i ret hc hpc hret =>
    refine Registry.todo_lt_of_call hc rfl (hn i) rfl ?_
    rw [hpc]
    simp only [CallPc.todo]
    omega
  | settleCancel c call i hc hpc hcancel =>
    refine Registry.todo_lt_of_call hc rfl (hn i) rfl ?_
    rw [hpc]
    simp only [CallPc.todo]
    omega
  | settlePublish c call i pid comm jit hc hpc hkind hcancel =>
    refine Registry.todo_lt_of_call hc rfl (hn i) rfl ?_
    rw [hpc]
    simp only [CallPc.todo]
    omega
  | unregBegin c call i m hc hpc hni =>
    refine Registry.todo_lt_of_slot rfl rfl (hw i) ?_
    rw [hni]
    simp only [Notifier.todo]
    omega
  | unregReturn c call i hc hpc hquiet =>
    refine Registry.todo_lt_of_call hc rfl rfl rfl ?_
    rw [hpc]
    simp only [CallPc.todo, Notifier.todo]
    omega
  | finish c call i hc hpc =>
    refine Registry.todo_lt_of_call hc rfl (hn i) rfl ?_
    rw [hpc]
    simp only [CallPc.todo]
    omega
  | releaseCaller i m hni hmm hrem =>
    refine Registry.todo_lt_of_slot rfl rfl (hw i) ?_
    rw [hni]
    simp only [Notifier.todo]
    omega
  | releaseOrganic i m hni hmm hrem =>
    refine Registry.todo_lt_of_slot rfl rfl (hw i) ?_
    rw [hni]
    simp only [Notifier.todo]
    omega
  | releaseStale i m hni hmm =>
    refine Registry.todo_lt_of_slot rfl rfl (hw i) ?_
    rw [hni]
    simp only [Notifier.todo]
    omega
  | queueRelease i m pid comm hni =>
    refine Registry.todo_lt_of_slot rfl rfl rfl ?_
    rw [hni]
    simp only [Notifier.todo, ReleaseWork.todo]
    omega
  | workUnregister i m hwi hrel hquiet =>
    refine Registry.todo_lt_of_slot rfl rfl rfl ?_
    rw [hwi]
    simp only [Notifier.todo, ReleaseWork.todo]
    omega
  | workFinish i hwi =>
    refine Registry.todo_lt_of_slot rfl (hn i) rfl ?_
    rw [hwi]
    simp only [ReleaseWork.todo]
    omega
  | _ => cases ha

/-! ### No state is stuck -/

/-- Some started operation can take a step. -/
def Registry.Enabled (s : Registry M) : Prop :=
  ∃ a : RegAct M, a.isPending = true ∧ (s.step a).isSome

/-- A call in flight can take a step, or the callback it waits for can. -/
lemma Registry.Owned.enabled_of_call (h : s.Owned owner) {c : ℕ} {call : Call M}
    (hc : s.calls[c]? = some call) (hpc : call.pc.isReturned = false) :
    s.Enabled := by
  cases hcall : call.pc with
  | registering i => exact ⟨.register c 0, rfl, by simp [Registry.step, hc, hcall]⟩
  | registered i ret =>
    have hadd := h.calls.claims c call hc (by rw [hcall]; rfl)
    cases hkind : call.kind with
    | add pid comm jit => exact ⟨.addSettle c, rfl, by simp [Registry.step, hc, hcall, hkind]⟩
    | del => simp [hkind, CallKind.isAdd] at hadd
    | clear => simp [hkind, CallKind.isAdd] at hadd
  | unregistering i =>
    have hi := h.slot_of_call hc (i := i) (by rw [hcall]; rfl)
    rw [hcall] at hi
    cases hi with
    | unregistering _ _ _ _ hni _ =>
    rcases hni with hni | hni | ⟨hni, -⟩
    · exact ⟨.unregBegin c, rfl, by simp [Registry.step, hc, hcall, hni]⟩
    · exact ⟨.release i, rfl, by simp [Registry.step, hni]⟩
    · exact ⟨.unregReturn c, rfl, by simp [Registry.step, hc, hcall, hni, Notifier.quiet]⟩
  | unregistered i => exact ⟨.finish c, rfl, by simp [Registry.step, hc, hcall]⟩
  | returned ret => simp [hcall, CallPc.isReturned] at hpc

lemma Registry.enabled_of_callback {i : Slot} (hi : (s.notifier i).inCallback = true) :
    s.Enabled := by
  cases hn : s.notifier i with
  | releasing m => exact ⟨.release i, rfl, by simp [Registry.step, hn]⟩
  | cleared m pid comm => exact ⟨.queueRelease i, rfl, by simp [Registry.step, hn]⟩
  | _ => simp [hn, Notifier.inCallback] at hi

lemma Registry.Owned.enabled_of_work (h : s.Owned owner) {i : Slot} (hi : s.work i ≠ .idle) :
    s.Enabled := by
  have hslot := h.slots i
  cases hw : s.work i with
  | idle => exact absurd hw hi
  | queued =>
    generalize owner i = o at hslot
    cases hslot with
    | queued m _ _ hrel hn _ =>
      exact ⟨.workUnregister i, rfl, by simp [Registry.step, hw, hrel, hn, Notifier.quiet]⟩
    | _ => simp_all
  | unregistered => exact ⟨.workFinish i, rfl, by simp [Registry.step, hw]⟩

/-- From every reachable state the started operations can be run to their end. -/
theorem Registry.Inv.exists_quiet_run (h : s.Inv) :
    ∃ as s', (∀ a ∈ as, RegAct.isPending a = true) ∧ run Registry.step s as = some s' ∧
      s'.Inv ∧ s'.Quiet := by
  refine exists_run_of_decreasing (P := Registry.Inv) Registry.todo (fun t ht hq => ?_) h
  obtain ⟨owner, howned⟩ := ht.owned
  have henabled : t.Enabled := by
    by_contra hnone
    refine hq ⟨fun call hcall => ?_, fun i => ?_, fun i => ?_⟩
    · by_contra hpc
      obtain ⟨c, hc⟩ := List.mem_iff_getElem?.mp hcall
      exact hnone (howned.enabled_of_call hc (Bool.eq_false_of_not_eq_true hpc))
    · by_contra hi
      exact hnone (Registry.enabled_of_callback (Bool.eq_true_of_not_eq_false hi))
    · by_contra hi
      exact hnone (howned.enabled_of_work hi)
  obtain ⟨a, ha, hsome⟩ := henabled
  obtain ⟨t', hstep⟩ := Option.isSome_iff_exists.mp hsome
  exact ⟨a, t', ha, hstep, ht.step hstep, Registry.todo_lt_of_step ha hstep⟩

end Anticheat
