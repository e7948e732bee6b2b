import Anticheat.Handoff.Rules
import Anticheat.Lib.PartialMap
import Anticheat.Lib.Run
import Mathlib.Data.Fintype.EquivFin

/-!
# Requests and pins

`Handoff.Linked` says which requests are in `ac_pending_forks` and what their fields can be at
each point of the worker; `Handoff.PinsOk` ties the entries of `ac_exec_pins[]` to the exec
kretprobe instances, from which it follows that the table is never full.
-/

namespace Anticheat

open Transition

/-! ### Linked requests -/

/-- The worker has not unlinked its request yet. -/
def WorkPc.linked : WorkPc → Bool
  | .queued => true
  | .waiting => true
  | .addMm => true
  | .added _ => true
  | _ => false

/-- Only a fork-inherit request is ever linked. -/
def AcProtAddReq.IsLinked (r : AcProtAddReq) : Prop := r.oldMm = none ∧ r.pc.linked = true

/-- What the branches of the worker need of the request kind. -/
def AcProtAddReq.KindOk (r : AcProtAddReq) : Prop :=
  match r.pc with
  | .queued => True
  | .addMm => True
  | .added _ => True
  | .delOld => r.oldMm ≠ none
  | .putOld => r.oldMm ≠ none
  | .putMm => True
  | _ => r.oldMm = none

/-- What holds of every request. -/
structure AcProtAddReq.Ok (r : AcProtAddReq) : Prop where
  post : r.postMm ≠ none → r.IsLinked
  kind : r.KindOk

namespace AcProtAddReq

variable {r : AcProtAddReq}

@[simp] lemma consume_pc : r.consume.pc = .consumed r.postMm := by
  unfold consume
  cases hpost : r.postMm <;> rfl

@[simp] lemma consume_postMm : r.consume.postMm = none := by
  unfold consume
  cases hpost : r.postMm <;> simp

@[simp] lemma consume_mm : r.consume.mm = r.mm := by
  unfold consume
  cases r.postMm <;> rfl

@[simp] lemma consume_oldMm : r.consume.oldMm = r.oldMm := by
  unfold consume
  cases r.postMm <;> rfl

@[simp] lemma consume_serial : r.consume.serial = r.serial := by
  unfold consume
  cases r.postMm <;> rfl

lemma Ok.postMm_eq_none (h : r.Ok) (hpc : r.pc.linked = false) : r.postMm = none := by
  by_contra hpost
  exact Bool.false_ne_true (hpc.symm.trans (h.post hpost).2)

/-- A request that was not posted to is as good as its program counter. -/
lemma Ok.of_postMm_none (hpost : r.postMm = none) (hkind : r.KindOk) : r.Ok :=
  ⟨fun h => absurd hpost h, hkind⟩

end AcProtAddReq

/-- The requests in `ac_pending_forks` are those whose worker has yet to unlink them. -/
structure Handoff.Linked (s : Handoff) : Prop where
  nodup : s.pending.Nodup
  mem_iff : ∀ a, a ∈ s.pending ↔ ∃ r, s.reqs a = some r ∧ r.IsLinked
  ok : ∀ a r, s.reqs a = some r → r.Ok

namespace Handoff.Linked

variable {s s' : Handoff} {a : ℕ} {r r' : AcProtAddReq}

lemma congr (h : s.Linked) (hreqs : s'.reqs = s.reqs) (hpend : s'.pending = s.pending) :
    s'.Linked := by
  constructor
  · rw [hpend]
    exact h.nodup
  · intro a
    rw [hpend, hreqs]
    exact h.mem_iff a
  · rw [hreqs]
    exact h.ok

/-- A change of a request that keeps it linked or unlinked. -/
lemma set (h : s.Linked) (hr : s.reqs a = some r)
    (hreqs : s'.reqs = Function.update s.reqs a (some r')) (hpend : s'.pending = s.pending)
    (hlink : r'.IsLinked ↔ r.IsLinked) (hok : r'.Ok) : s'.Linked := by
  constructor
  · rw [hpend]
    exact h.nodup
  · intro b
    rw [hpend, h.mem_iff b, hreqs]
    by_cases hb : b = a
    · subst hb
      simp [hr, hlink]
    · rw [Function.update_of_ne hb]
  · rw [hreqs]
    exact PartialMap.forall_update (fun b q _ => h.ok b q) fun q hq => Option.some.inj hq ▸ hok

/-- `list_del` -/
lemma unlink (h : s.Linked) (hreqs : s'.reqs = Function.update s.reqs a (some r'))
    (hpend : s'.pending = s.pending.erase a) (hpc : r'.pc.linked = false) (hok : r'.Ok) :
    s'.Linked := by
  constructor
  · rw [hpend]
    exact h.nodup.erase a
  · intro b
    rw [hpend, h.nodup.mem_erase_iff, h.mem_iff b, hreqs]
    by_cases hb : b = a
    · subst hb
      simp [AcProtAddReq.IsLinked, hpc]
    · simp [hb]
  · rw [hreqs]
    exact PartialMap.forall_update (fun b q _ => h.ok b q) fun q hq => Option.some.inj hq ▸ hok

/-- `mempool_free` -/
lemma free (h : s.Linked) (hr : s.reqs a = some r)
    (hreqs : s'.reqs = Function.update s.reqs a none) (hpend : s'.pending = s.pending)
    (hpc : r.pc.linked = false) : s'.Linked := by
  constructor
  · rw [hpend]
    exact h.nodup
  · intro b
    rw [hpend, h.mem_iff b, hreqs]
    by_cases hb : b = a
    · subst hb
      simp [hr, AcProtAddReq.IsLinked, hpc]
    · rw [Function.update_of_ne hb]
  · rw [hreqs]
    exact PartialMap.forall_update (fun b q _ => h.ok b q) fun q hq => nomatch hq

/-- A new request. -/
lemma enqueue (h : s.Linked) (ha : s.reqs a = none) (hpost : r.postMm = none)
    (hpc : r.pc = .queued) : (s.enqueue a r).Linked := by
  have hok : ∀ (r' : AcProtAddReq), r'.postMm = none → r'.pc = .queued → r'.Ok := by
    intro r' hpost hpc
    refine .of_postMm_none hpost ?_
    rw [AcProtAddReq.KindOk, hpc]
    trivial
  have hmem : a ∉ s.pending := by
    rw [h.mem_iff a, ha]
    simp
  cases hold : r.oldMm with
  | none =>
    rw [enqueue_of_fork hold]
    constructor
    · exact List.nodup_cons.mpr ⟨hmem, h.nodup⟩
    · intro b
      show b ∈ a :: s.pending ↔ ∃ q, Function.update s.reqs a _ b = some q ∧ _
      rw [List.mem_cons, h.mem_iff b]
      by_cases hb : b = a
      · subst hb
        simp [AcProtAddReq.IsLinked, hold, hpc, WorkPc.linked]
      · simp [hb]
    · refine PartialMap.forall_update (fun b q _ => h.ok b q) fun q hq => ?_
      cases hq
      exact hok _ hpost hpc
  | some old =>
    rw [enqueue_of_rekey hold]
    constructor
    · exact h.nodup
    · intro b
      show b ∈ s.pending ↔ ∃ q, Function.update s.reqs a _ b = some q ∧ _
      rw [h.mem_iff b]
      by_cases hb : b = a
      · subst hb
        simp [AcProtAddReq.IsLinked, hold, ha]
      · simp [hb]
    · refine PartialMap.forall_update (fun b q _ => h.ok b q) fun q hq => ?_
      cases hq
      exact hok _ hpost hpc

/-- The steps of the worker. -/
lemma work {w : WorkAct} (h : s.Linked) (hr : s.reqs a = some r) (hw : WorkRule s a r w s') :
    s'.Linked := by
  have hok := h.ok a r hr
  -- a branch that leaves `post_mm` alone and unlinks nothing
  have hset : ∀ {pc : WorkPc} {s' : Handoff},
      s'.reqs = Function.update s.reqs a (some { r with pc := pc }) → s'.pending = s.pending →
      pc.linked = r.pc.linked → ({ r with pc := pc } : AcProtAddReq).KindOk → s'.Linked := by
    intro pc s' hreqs hpend hlink hkind
    have hiff : ({ r with pc := pc } : AcProtAddReq).IsLinked ↔ r.IsLinked := by
      simp [AcProtAddReq.IsLinked, hlink]
    exact h.set hr hreqs hpend hiff ⟨fun hpost => hiff.mpr (hok.post hpost), hkind⟩
  -- and one of the rekey branches, where nothing is linked or posted
  have hrekey : ∀ {old : Ref} {pc : WorkPc} {s' : Handoff}, r.oldMm = some old →
      s'.reqs = Function.update s.reqs a (some { r with pc := pc }) → s'.pending = s.pending →
      ({ r with pc := pc } : AcProtAddReq).KindOk → s'.Linked := by
    intro old pc s' hold hreqs hpend hkind
    refine h.set hr hreqs hpend (by simp [AcProtAddReq.IsLinked, hold]) ⟨fun hpost => ?_, hkind⟩
    exact absurd ((hok.post hpost).1.symm.trans hold) nofun
  have hkind := hok.kind
  cases hw with
  | wait hpc hold hclaimed => exact hset rfl rfl (by rw [hpc]; rfl) hold
  | addMm hpc hfree => exact hset rfl rfl (by rw [hpc]; rfl) trivial
  | wake timedOut hpc hdone =>
    rw [AcProtAddReq.KindOk, hpc] at hkind
    refine h.unlink rfl rfl (by simp [WorkPc.linked]) (.of_postMm_none r.consume_postMm ?_)
    simpa [AcProtAddReq.KindOk] using hkind
  | adopt p hpc =>
    rw [AcProtAddReq.KindOk, hpc] at hkind
    refine h.set hr rfl rfl ?_ (.of_postMm_none ?_ hkind)
    · simp [AcProtAddReq.IsLinked, hpc, WorkPc.linked]
    · exact hok.postMm_eq_none (by rw [hpc]; rfl)
  | lost hpc =>
    rw [AcProtAddReq.KindOk, hpc] at hkind
    exact hset rfl rfl (by rw [hpc]; rfl) hkind
  | addedPost ret hpc => exact hset rfl rfl (by rw [hpc]; rfl) trivial
  | addedLost ret hpc => exact hset rfl rfl (by rw [hpc]; rfl) trivial
  | addedMm ret hpc => exact hset rfl rfl (by rw [hpc]; rfl) trivial
  | addedLate ret ret₁ post pid comm hpc => exact hset rfl rfl (by rw [hpc]; rfl) trivial
  | unlinkNone ret hpc hold hpost => exact h.unlink rfl rfl rfl (.of_postMm_none hpost trivial)
  | unlinkSame ret p hpc hold hpost hmm => exact h.unlink rfl rfl rfl (.of_postMm_none rfl trivial)
  | unlinkLate ret p hpc hold hpost hmm => exact h.unlink rfl rfl rfl (.of_postMm_none rfl hold)
  | keep old hpc hold => exact hrekey hold rfl rfl (ne_of_eq_of_ne hold nofun)
  | delete old hpc hold => exact hrekey hold rfl rfl (ne_of_eq_of_ne hold nofun)
  | rekeyFail ret old shared hpc hold hret => exact hrekey hold rfl rfl (ne_of_eq_of_ne hold nofun)
  | deleted hpc =>
    rw [AcProtAddReq.KindOk, hpc] at hkind
    exact hset rfl rfl (by rw [hpc]; rfl) hkind
  | putOld hpc => exact hset rfl rfl (by rw [hpc]; rfl) trivial
  | finish hpc => exact h.free hr rfl rfl (by rw [hpc]; rfl)

lemma init : Handoff.init.Linked where
  nodup := List.nodup_nil
  mem_iff a := by simp [Handoff.init]
  ok _ _ h := nomatch h

theorem step {act : HandoffAct} (h : s.Linked) (hstep : s.step act = some s') : s'.Linked := by
  -- a handler that finds a linked request changes neither its kind nor its progress
  have hmark : ∀ {a : ℕ} {r r' : AcProtAddReq} {s' : Handoff}, a ∈ s.pending →
      s.reqs a = some r → s'.reqs = Function.update s.reqs a (some r') → s'.pending = s.pending →
      r'.oldMm = r.oldMm → r'.pc = r.pc → s'.Linked := by
    intro a r r' s' ha hr hreqs hpend hold hpc
    obtain ⟨q, hq, hlink⟩ := (h.mem_iff a).mp ha
    obtain rfl : q = r := Option.some.inj (hq.symm.trans hr)
    have hiff : r'.IsLinked ↔ q.IsLinked := by simp [AcProtAddReq.IsLinked, hold, hpc]
    refine h.set hr hreqs hpend hiff ⟨fun _ => hiff.mpr hlink, ?_⟩
    have hkind := (h.ok a q hr).kind
    simpa only [AcProtAddReq.KindOk, hpc, hold] using hkind
  cases rule_of_step hstep with
  | scanClaim x m tgid a r hx ha hr hclaim => exact hmark ha hr rfl rfl rfl rfl
  | retPost x rc m pid comm jit addr c r hreg hx ha hr hid => exact hmark ha hr rfl rfl rfl rfl
  | retWake x rc pid comm jit addr c r hreg hx ha hr => exact hmark ha hr rfl rfl rfl rfl
  | requeue x c mm pid comm a hx ha =>
    have h' : (s.setExec x none).Linked := h.congr rfl rfl
    exact (h'.enqueue ha (r := .make mm none pid comm c.parentPid c.parentComm c.jitAllowed)
      rfl rfl).congr rfl rfl
  | rekey x m pid comm jit a old slot hreg hx hm ha =>
    have h' : (((s.pinUntrack slot).setExec x none).get m).Linked := h.congr rfl rfl
    exact h'.enqueue ha rfl rfl
  | rekeyDropped x m pid comm jit old slot hreg hx hm =>
    have h' : ((s.pinUntrack slot).setExec x none).Linked := h.congr rfl rfl
    exact h'.congr rfl rfl
  | cloneSchedule y c ppid pcomm jit a hy ha =>
    have h' : (s.setClone y none).Linked := h.congr rfl rfl
    exact h'.enqueue ha rfl rfl
  | work a r w s' hr hw => exact h.work hr hw
  | _ => exact h.congr rfl rfl

end Handoff.Linked

/-! ### Pins -/

/-- Whether an exec instance has its old mm pinned. -/
def ExecInst.isPinned : ExecInst → Bool
  | .pinned .. => true
  | _ => false

/-- An entry of `ac_exec_pins[]` belongs to one instance. As long as the probe of that instance is
registered, the instance knows the entry. -/
structure Handoff.PinsOk (s : Handoff) : Prop where
  tracked : ∀ x old slot, s.execs x = some (.pinned old slot) → slot ≠ none
  pinned : ∀ x old i, s.execs x = some (.pinned old (some i)) → s.registered x.1 = true →
    s.pins i = some old ∧ s.owner i = x
  owned : ∀ i, s.pins i ≠ none → s.registered (s.owner i).1 = true →
    ∃ old, s.execs (s.owner i) = some (.pinned old (some i))
  inj : ∀ i j, s.pins i ≠ none → s.pins j ≠ none → s.owner i = s.owner j → i = j
  emptied : ∀ i : PinSlot, i < s.dropNext → s.pins i = none
  unregistered : s.dropNext ≠ 0 → ∀ k, s.registered k = false

namespace Handoff.PinsOk

variable {s s' : Handoff}

lemma init : Handoff.init.PinsOk where
  tracked _ _ _ h := nomatch h
  pinned _ _ _ h := nomatch h
  owned _ hi := absurd rfl hi
  inj _ _ hi := absurd rfl hi
  emptied _ _ := rfl
  unregistered h := absurd rfl h

lemma congr (h : s.PinsOk) (hexecs : s'.execs = s.execs) (hpins : s'.pins = s.pins)
    (hreg : s'.registered = s.registered) (hnext : s'.dropNext = s.dropNext)
    (howner : s'.owner = s.owner) : s'.PinsOk := by
  constructor
  · rw [hexecs]
    exact h.tracked
  · rw [hexecs, hpins, hreg, howner]
    exact h.pinned
  · rw [hexecs, hpins, hreg, howner]
    exact h.owned
  · rw [hpins, howner]
    exact h.inj
  · rw [hpins, hnext]
    exact h.emptied
  · rw [hreg, hnext]
    exact h.unregistered

/-- A step of an instance that pins nothing, before and after. -/
lemma setExec {x : InstId} {o : Option ExecInst} (h : s.PinsOk)
    (hx : ∀ i, s.execs x = some i → i.isPinned = false)
    (ho : ∀ i, o = some i → i.isPinned = false) : (s.setExec x o).PinsOk := by
  have hnew : ∀ y old slot, Function.update s.execs x o y = some (.pinned old slot) →
      s.execs y = some (.pinned old slot) := by
    intro y old slot hy
    by_cases hyx : y = x
    · subst hyx
      rw [Function.update_self] at hy
      cases ho _ hy
    · rwa [Function.update_of_ne hyx] at hy
  constructor
  · intro y old slot hy
    exact h.tracked y old slot (hnew y old slot hy)
  · intro y old i hy
    exact h.pinned y old i (hnew y old (some i) hy)
  · intro i hi hreg
    obtain ⟨old, hold⟩ := h.owned i hi hreg
    refine ⟨old, (Function.update_of_ne ?_ _ _).trans hold⟩
    intro (heq : s.owner i = x)
    rw [heq] at hold
    cases hx _ hold
  · exact h.inj
  · exact h.emptied
  · exact h.unregistered

/-- The table always has a free entry for an instance that is free: the entries in use belong to
different other instances. -/
theorem pinTrack_isSome (h : s.PinsOk) {x : InstId} (hreg : s.registered x.1 = true)
    (hx : s.execs x = none) : ∃ i, s.pinTrack = some i ∧ s.pins i = none := by
  cases hi : s.pinTrack with
  | some i => exact ⟨i, rfl, by simpa using List.find?_some hi⟩
  | none =>
    have hfull : ∀ i, s.pins i ≠ none := by
      intro i hnone
      have := List.find?_eq_none.mp hi i (List.mem_finRange i)
      simp [hnone] at this
    have hinj : Function.Injective s.owner := fun i j => h.inj i j (hfull i) (hfull j)
    have hcard : Fintype.card PinSlot = Fintype.card InstId := by
      simp [acExecPinMax]
    have hsurj := ((Fintype.bijective_iff_injective_and_card s.owner).mpr ⟨hinj, hcard⟩).2
    obtain ⟨i, rfl⟩ := hsurj x
    obtain ⟨old, hold⟩ := h.owned i (hfull i) hreg
    rw [hx] at hold
    cases hold

/-- `ac_exec_pin_track` -/
lemma track {x : InstId} {i : PinSlot} {r : Ref} (h : s.PinsOk) (hreg : s.registered x.1 = true)
    (hx : s.execs x = none) (hi : s.pins i = none)
    (hexecs : s'.execs = Function.update s.execs x (some (.pinned r (some i))))
    (hpins : s'.pins = Function.update s.pins i (some r)) (hreg' : s'.registered = s.registered)
    (hnext : s'.dropNext = s.dropNext) (howner : s'.owner = Function.update s.owner i x) :
    s'.PinsOk := by
  -- no other entry belongs to the instance
  have hother : ∀ j, s.pins j ≠ none → s.owner j ≠ x := by
    rintro j hj rfl
    obtain ⟨old, hold⟩ := h.owned j hj hreg
    rw [hx] at hold
    cases hold
  have hpin : ∀ j, j ≠ i → (Function.update s.pins i (some r) j ≠ none ↔ s.pins j ≠ none) := by
    intro j hj
    rw [Function.update_of_ne hj]
  have hzero : s.dropNext = 0 := by
    by_contra hne
    exact Bool.false_ne_true ((h.unregistered hne x.1).symm.trans hreg)
  constructor
  · rw [hexecs]
    intro y old slot hy
    by_cases hyx : y = x
    · subst hyx
      rw [Function.update_self] at hy
      cases hy
      nofun
    · rw [Function.update_of_ne hyx] at hy
      exact h.tracked y old slot hy
  · rw [hexecs, hpins, hreg', howner]
    intro y old j hy hreg
    by_cases hyx : y = x
    · subst hyx
      rw [Function.update_self] at hy
      cases hy
      exact ⟨Function.update_self .., Function.update_self ..⟩
    · rw [Function.update_of_ne hyx] at hy
      obtain ⟨hj, hown⟩ := h.pinned y old j hy hreg
      have hji : j ≠ i := by
        rintro rfl
        rw [hi] at hj
        cases hj
      rw [Function.update_of_ne hji, Function.update_of_ne hji]
      exact ⟨hj, hown⟩
  · rw [hexecs, hpins, hreg', howner]
    intro j hj hreg
    by_cases hji : j = i
    · subst hji
      exact ⟨r, by simp⟩
    · rw [hpin j hji] at hj
      rw [Function.update_of_ne hji] at hreg ⊢
      rw [Function.update_of_ne (hother j hj)]
      exact h.owned j hj hreg
  · rw [hpins, howner]
    intro j k hj hk heq
    by_cases hji : j = i <;> by_cases hki : k = i
    · rw [hji, hki]
    · subst hji
      rw [Function.update_self, Function.update_of_ne hki] at heq
      exact absurd heq.symm (hother k ((hpin k hki).mp hk))
    · subst hki
      rw [Function.update_self, Function.update_of_ne hji] at heq
      exact absurd heq (hother j ((hpin j hji).mp hj))
    · rw [Function.update_of_ne hji, Function.update_of_ne hki] at heq
      exact h.inj j k ((hpin j hji).mp hj) ((hpin k hki).mp hk) heq
  · intro j hj
    rw [hnext, hzero] at hj
    exact absurd hj (Nat.not_lt_zero _)
  · intro hne
    exact absurd (hnext.trans hzero) hne

/-- `ac_exec_pin_untrack` at the return of the instance. -/
lemma untrack {x : InstId} {i : PinSlot} {old : Ref} (h : s.PinsOk)
    (hreg : s.registered x.1 = true) (hx : s.execs x = some (.pinned old (some i)))
    (hexecs : s'.execs = Function.update s.execs x none)
    (hpins : s'.pins = Function.update s.pins i none) (hreg' : s'.registered = s.registered)
    (hnext : s'.dropNext = s.dropNext) (howner : s'.owner = s.owner) : s'.PinsOk := by
  obtain ⟨hi, hown⟩ := h.pinned x old i hx hreg
  have hpin : ∀ j, Function.update s.pins i none j ≠ none → j ≠ i ∧ s.pins j ≠ none := by
    intro j hj
    by_cases hji : j = i
    · subst hji
      exact absurd (Function.update_self ..) hj
    · exact ⟨hji, by rwa [Function.update_of_ne hji] at hj⟩
  have hexec : ∀ y old slot, Function.update s.execs x none y = some (.pinned old slot) →
      y ≠ x ∧ s.execs y = some (.pinned old slot) := by
    intro y old slot hy
    by_cases hyx : y = x
    · subst hyx
      rw [Function.update_self] at hy
      cases hy
    · exact ⟨hyx, by rwa [Function.update_of_ne hyx] at hy⟩
  constructor
  · rw [hexecs]
    intro y old slot hy
    exact h.tracked y old slot (hexec y old slot hy).2
  · rw [hexecs, hpins, hreg', howner]
    intro y old' j hy hreg
    obtain ⟨hyx, hy⟩ := hexec y old' (some j) hy
    obtain ⟨hj, hown'⟩ := h.pinned y old' j hy hreg
    have hji : j ≠ i := by
      rintro rfl
      exact hyx (hown'.symm.trans hown)
    exact ⟨(Function.update_of_ne hji _ _).trans hj, hown'⟩
  · rw [hexecs, hpins, hreg', howner]
    intro j hj hreg
    obtain ⟨hji, hj⟩ := hpin j hj
    obtain ⟨old', hold'⟩ := h.owned j hj hreg
    refine ⟨old', (Function.update_of_ne ?_ _ _).trans hold'⟩
    intro heq
    exact hji (h.inj j i hj (hi ▸ nofun) (heq.trans hown.symm))
  · rw [hpins, howner]
    intro j k hj hk
    exact h.inj j k (hpin j hj).2 (hpin k hk).2
  · rw [hpins, hnext]
    intro j hj
    by_contra hne
    exact (hpin j hne).2 (h.emptied j hj)
  · rw [hreg', hnext]
    exact h.unregistered

/-- The return of an exec whose probe is unregistered leaves its pin behind. -/
lemma discard {x : InstId} (h : s.PinsOk) (hreg : s.registered x.1 = false) :
    (s.setExec x none).PinsOk := by
  have hexec : ∀ y i, Function.update s.execs x none y = some i → s.execs y = some i := by
    intro y i hy
    by_cases hyx : y = x
    · subst hyx
      rw [Function.update_self] at hy
      cases hy
    · rwa [Function.update_of_ne hyx] at hy
  constructor
  · intro y old slot hy
    exact h.tracked y old slot (hexec y _ hy)
  · intro y old i hy
    exact h.pinned y old i (hexec y _ hy)
  · intro i hi hreg'
    obtain ⟨old, hold⟩ := h.owned i hi hreg'
    refine ⟨old, (Function.update_of_ne ?_ _ _).trans hold⟩
    intro heq
    exact Bool.false_ne_true (hreg.symm.trans (heq ▸ hreg'))
  · exact h.inj
  · exact h.emptied
  · exact h.unregistered

/-- `unregister_kretprobe` -/
lemma unregister (h : s.PinsOk) (k : ExecProbe) :
    PinsOk { s with registered := Function.update s.registered k false } := by
  have hreg : ∀ j, Function.update s.registered k false j = true → s.registered j = true := by
    intro j hj
    by_cases hjk : j = k
    · subst hjk
      rw [Function.update_self] at hj
      cases hj
    · rwa [Function.update_of_ne hjk] at hj
  constructor
  · exact h.tracked
  · intro x old i hx hx'
    exact h.pinned x old i hx (hreg x.1 hx')
  · intro i hi hi'
    exact h.owned i hi (hreg _ hi')
  · exact h.inj
  · exact h.emptied
  · intro hne j
    exact Bool.eq_false_of_not_eq_true fun hj =>
      Bool.false_ne_true ((h.unregistered hne j).symm.trans (hreg j hj))

/-- One iteration of `ac_exec_pins_drop_all`. -/
lemma dropPin {i : PinSlot} (h : s.PinsOk) (hi : s.dropNext = i)
    (hreg : ∀ k, s.registered k = false) : (s.dropPin i).PinsOk := by
  have hpin : ∀ j, Function.update s.pins i none j ≠ none → j ≠ i ∧ s.pins j ≠ none := by
    intro j hj
    by_cases hji : j = i
    · subst hji
      exact absurd (Function.update_self ..) hj
    · exact ⟨hji, by rwa [Function.update_of_ne hji] at hj⟩
  constructor
  · exact h.tracked
  · intro x old j _ hx
    exact absurd ((hreg x.1).symm.trans hx) Bool.false_ne_true
  · intro j _ hj
    exact absurd ((hreg _).symm.trans hj) Bool.false_ne_true
  · intro j k hj hk
    exact h.inj j k (hpin j hj).2 (hpin k hk).2
  · intro j hj
    by_contra hne
    obtain ⟨hji, hne⟩ := hpin j hne
    refine hne (h.emptied j ?_)
    have hj : (j : ℕ) < i + 1 := hj
    have hji : (j : ℕ) ≠ i := fun heq => hji (Fin.ext heq)
    omega
  · intro _
    exact hreg

theorem step {act : HandoffAct} (h : s.PinsOk) (hstep : s.step act = some s') : s'.PinsOk := by
  -- an instance that is not pinned
  have hfree : ∀ {x : InstId} {j : ExecInst}, s.execs x = some j → j.isPinned = false →
      ∀ i, s.execs x = some i → i.isPinned = false := by
    intro x j hx hj i hi
    rwa [← Option.some.inj (hx.symm.trans hi)]
  -- the return of one that is
  have huntrack : ∀ {x : InstId} {old : Ref} {slot : Option PinSlot},
      s.registered x.1 = true → s.execs x = some (.pinned old slot) →
      ((s.pinUntrack slot).setExec x none).PinsOk := by
    intro x old slot hreg hx
    obtain ⟨i, rfl⟩ := Option.ne_none_iff_exists'.mp (h.tracked x old slot hx)
    exact h.untrack hreg hx rfl rfl rfl rfl rfl
  cases rule_of_step hstep with
  | pin x m pid comm i hreg hx hi =>
    exact h.track hreg hx (by simpa using List.find?_some hi) rfl rfl rfl rfl rfl
  | pinUntracked x m pid comm hreg hx hi =>
    obtain ⟨i, hi', -⟩ := h.pinTrack_isSome hreg hx
    rw [hi] at hi'
    cases hi'
  | miss x hreg hx =>
    exact h.setExec (fun i hi => by rw [hx] at hi; cases hi) fun i hi => by cases hi; rfl
  | scanPlain x m tgid hx hnone => exact h.setExec (hfree hx rfl) fun i hi => by cases hi; rfl
  | scanClaim x m tgid a r hx ha hr hclaim =>
    refine (h.setExec (x := x) (hfree hx rfl) ?_).congr rfl rfl rfl rfl rfl
    intro i hi
    cases hi
    rfl
  | retPlain x rc m pid comm jit addr hreg hx => exact h.setExec (hfree hx rfl) nofun
  | retPost x rc m pid comm jit addr c r hreg hx ha hr hid =>
    exact (h.setExec (x := x) (o := none) (hfree hx rfl) nofun).congr rfl rfl rfl rfl rfl
  | retGone x rc m pid comm jit addr c hreg hx =>
    refine (h.setExec (x := x) (hfree hx rfl) ?_).congr rfl rfl rfl rfl rfl
    intro i hi
    cases hi
    rfl
  | retWake x rc pid comm jit addr c r hreg hx ha hr =>
    exact (h.setExec (x := x) (o := none) (hfree hx rfl) nofun).congr rfl rfl rfl rfl rfl
  | retExiting x rc pid comm jit addr c hreg hx => exact h.setExec (hfree hx rfl) nofun
  | requeue x c mm pid comm a hx ha =>
    exact (h.setExec (x := x) (o := none) (hfree hx rfl) nofun).congr rfl rfl rfl rfl rfl
  | requeueDropped x c mm pid comm hx =>
    exact (h.setExec (x := x) (o := none) (hfree hx rfl) nofun).congr rfl rfl rfl rfl rfl
  | rekeyFailed x rc m pid comm jit addr old slot hreg hx hfail =>
    exact (huntrack hreg hx).congr rfl rfl rfl rfl rfl
  | rekeySame x pid comm jit addr old slot hreg hx =>
    exact (huntrack hreg hx).congr rfl rfl rfl rfl rfl
  | rekey x m pid comm jit a old slot hreg hx hm ha =>
    exact (huntrack hreg hx).congr rfl rfl rfl rfl rfl
  | rekeyDropped x m pid comm jit old slot hreg hx hm =>
    exact (huntrack hreg hx).congr rfl rfl rfl rfl rfl
  | discard x i hreg hx hi => exact h.discard hreg
  | unregister k => exact h.unregister k
  | dropPin i hi hreg hidle => exact h.dropPin hi hreg
  | work a r w s' hr hw => cases hw <;> exact h.congr rfl rfl rfl rfl rfl
  | _ => exact h.congr rfl rfl rfl rfl rfl

end Handoff.PinsOk

end Anticheat
