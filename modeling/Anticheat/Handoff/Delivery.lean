import Anticheat.Handoff.Refs

/-!
# Where a post-exec image ends up

For every exec that claimed a pending request, what became of the image its return handler found:
it was passed to `ac_add_prot_mm`, a later handoff took its place, or its loss was reported.
Generation tags tell a recycled request from the claimed one as long as they do not wrap.
-/

namespace Anticheat

open Transition

/-! ### Generation tags -/

/-- A tag is the serial number of its request cut to 32 bits. A claimed request that is gone can
only have been followed by newer ones at its address. -/
structure Handoff.Tagged (s : Handoff) : Prop where
  seq : s.seq = BitVec.ofNat 32 s.serial
  req : ∀ a r, s.reqs a = some r → r.oldMm = none →
    r.serial ≤ s.serial ∧ r.reqId = BitVec.ofNat 32 r.serial
  claim : ∀ x c, s.execs x = some (.claimed c) →
    c.serial ≤ s.serial ∧ c.pendingId = BitVec.ofNat 32 c.serial ∧
      ∀ r, s.reqs c.pendingReq = some r → r.oldMm = none → c.serial ≤ r.serial

/-- The fields of a request that never change. -/
def AcProtAddReq.SameTag (r r' : AcProtAddReq) : Prop :=
  r'.oldMm = r.oldMm ∧ r'.serial = r.serial ∧ r'.reqId = r.reqId

/-- What the worker does to the map of requests. -/
lemma Handoff.WorkRule.reqs {s s' : Handoff} {a : ℕ} {r : AcProtAddReq} {w : WorkAct}
    (hw : WorkRule s a r w s') :
    (∃ r', s'.reqs = Function.update s.reqs a (some r') ∧ r.SameTag r') ∨
      s'.reqs = Function.update s.reqs a none := by
  cases hw with
  | wake timedOut hpc hdone =>
    refine .inl ⟨r.consume, rfl, r.consume_oldMm, r.consume_serial, ?_⟩
    unfold AcProtAddReq.consume
    cases r.postMm <;> rfl
  | finish hpc => exact .inr rfl
  | _ => exact .inl ⟨_, rfl, rfl, rfl, rfl⟩

/-- The worker touches nothing but the requests and the histories. -/
lemma Handoff.WorkRule.frame {s s' : Handoff} {a : ℕ} {r : AcProtAddReq} {w : WorkAct}
    (hw : WorkRule s a r w s') :
    s'.execs = s.execs ∧ s'.clones = s.clones ∧ s'.pins = s.pins ∧ s'.seq = s.seq ∧
      s'.serial = s.serial ∧ s'.taken = s.taken ∧ s'.registered = s.registered := by
  cases hw <;> exact ⟨rfl, rfl, rfl, rfl, rfl, rfl, rfl⟩

namespace Handoff.Tagged

variable {s s' : Handoff} {a : ℕ} {r r' : AcProtAddReq}

lemma init : Handoff.init.Tagged where
  seq := rfl
  req _ _ h := nomatch h
  claim _ _ h := nomatch h

/-- A change of requests in place, and of instances other than by a claim. -/
lemma frame (h : s.Tagged) (hseq : s'.seq = s.seq) (hserial : s'.serial = s.serial)
    (hreqs : ∀ a r', s'.reqs a = some r' → ∃ r, s.reqs a = some r ∧ r.SameTag r')
    (hexecs : ∀ x c, s'.execs x = some (.claimed c) → s.execs x = some (.claimed c)) :
    s'.Tagged := by
  constructor
  · rw [hseq, hserial]
    exact h.seq
  · intro a r' hr' hold'
    obtain ⟨r, hr, hold, hser, hid⟩ := hreqs a r' hr'
    rw [hserial, hser, hid]
    exact h.req a r hr (hold ▸ hold')
  · intro x c hc
    obtain ⟨hle, hid, hnewer⟩ := h.claim x c (hexecs x c hc)
    refine ⟨hserial ▸ hle, hid, fun r' hr' hold' => ?_⟩
    obtain ⟨r, hr, hold, hser, -⟩ := hreqs _ r' hr'
    exact hser ▸ hnewer r hr (hold ▸ hold')

/-- A request changed in place. -/
lemma sameTag_update (hr : s.reqs a = some r) (hr' : r.SameTag r') (b : ℕ) (q' : AcProtAddReq)
    (hq' : Function.update s.reqs a (some r') b = some q') :
    ∃ q, s.reqs b = some q ∧ q.SameTag q' := by
  revert b q'
  refine PartialMap.forall_update (fun b q' _ hq' => ⟨q', hq', rfl, rfl, rfl⟩) fun q' hq' => ?_
  cases hq'
  exact ⟨r, hr, hr'⟩

/-- An instance that does not become a claimed one. -/
lemma claimed_of_setExec {x : InstId} {o : Option ExecInst} (ho : ∀ c, o ≠ some (.claimed c))
    (y : InstId) (c : ExecClaim) (hy : Function.update s.execs x o y = some (.claimed c)) :
    s.execs y = some (.claimed c) := by
  by_cases hyx : y = x
  · subst hyx
    rw [Function.update_self] at hy
    exact absurd hy (ho c)
  · rwa [Function.update_of_ne hyx] at hy

/-- A new request gets the next number and its tag. -/
lemma enqueue (h : s.Tagged) : (s.enqueue a r).Tagged := by
  cases hold : r.oldMm with
  | none =>
    rw [enqueue_of_fork hold]
    have hreq : ∀ b q, Function.update s.reqs a
        (some { r with reqId := s.seq + 1, serial := s.serial + 1 }) b = some q →
        q.oldMm = none → q.serial ≤ s.serial + 1 ∧ q.reqId = BitVec.ofNat 32 q.serial := by
      refine PartialMap.forall_update (fun b q _ hq hold => ?_) fun q hq hold => ?_
      · exact ⟨Nat.le_succ_of_le (h.req b q hq hold).1, (h.req b q hq hold).2⟩
      · cases hq
        refine ⟨le_refl _, ?_⟩
        simp [h.seq, BitVec.ofNat_add]
    constructor
    · simp [h.seq, BitVec.ofNat_add]
    · exact hreq
    · intro x c hc
      obtain ⟨hle, hid, hnewer⟩ := h.claim x c hc
      refine ⟨Nat.le_succ_of_le hle, hid, ?_⟩
      suffices hall : ∀ b q, Function.update s.reqs a
          (some { r with reqId := s.seq + 1, serial := s.serial + 1 }) b = some q →
          c.pendingReq = b → q.oldMm = none → c.serial ≤ q.serial from
        fun q hq => hall _ q hq rfl
      refine PartialMap.forall_update (fun b q _ hq hb hold => ?_) fun q hq _ _ => ?_
      · exact hnewer q (hb ▸ hq) hold
      · cases hq
        exact Nat.le_succ_of_le hle
  | some old =>
    rw [enqueue_of_rekey hold]
    constructor
    · exact h.seq
    · refine PartialMap.forall_update (fun b q _ => h.req b q) fun q hq hnone => ?_
      cases hq
      rw [hold] at hnone
      cases hnone
    · intro x c hc
      obtain ⟨hle, hid, hnewer⟩ := h.claim x c hc
      refine ⟨hle, hid, ?_⟩
      suffices hall : ∀ b q, Function.update s.reqs a (some r) b = some q →
          c.pendingReq = b → q.oldMm = none → c.serial ≤ q.serial from
        fun q hq => hall _ q hq rfl
      refine PartialMap.forall_update (fun b q _ hq hb hold => ?_) fun q hq _ hnone => ?_
      · exact hnewer q (hb ▸ hq) hold
      · cases hq
        rw [hold] at hnone
        cases hnone

theorem step {act : HandoffAct} (h : s.Tagged) (hlink : s.Linked)
    (hstep : s.step act = some s') : s'.Tagged := by
  have hsame : ∀ (b : ℕ) (q : AcProtAddReq), s.reqs b = some q →
      ∃ q₀, s.reqs b = some q₀ ∧ q₀.SameTag q := fun b q hq => ⟨q, hq, rfl, rfl, rfl⟩
  -- a step that claims nothing and queues nothing
  have hexec : ∀ {x : InstId} {o : Option ExecInst}, (∀ c, o ≠ some (.claimed c)) →
      (s.setExec x o).Tagged :=
    fun ho => h.frame rfl rfl hsame (claimed_of_setExec ho)
  cases rule_of_step hstep with
  | pin x m pid comm i hreg hx hi =>
    exact (hexec (x := x) (o := some (.pinned (s.nextRef m) (some i))) nofun).frame rfl rfl
      hsame fun _ _ hc => hc
  | pinUntracked x m pid comm hreg hx hi =>
    exact (hexec (x := x) (o := some (.pinned (s.nextRef m) none)) nofun).frame rfl rfl
      hsame fun _ _ hc => hc
  | scanClaim x m tgid a r hx ha hr hclaim =>
    obtain ⟨q, hq, hq'⟩ := (hlink.mem_iff a).mp ha
    obtain rfl : q = r := Option.some.inj (hq.symm.trans hr)
    obtain ⟨hle, hid⟩ := h.req a q hr hq'.1
    have htag : q.SameTag { q with claimed := true } := ⟨rfl, rfl, rfl⟩
    have hnew := sameTag_update hr htag
    constructor
    · exact h.seq
    · intro b r' hr' hold'
      obtain ⟨r, hr, hold, hser, hid⟩ := hnew b r' hr'
      rw [hser, hid]
      exact h.req b r hr (hold ▸ hold')
    · intro y c hy
      replace hy : Function.update s.execs x _ y = some (.claimed c) := hy
      by_cases hyx : y = x
      · subst hyx
        rw [Function.update_self] at hy
        cases hy
        refine ⟨hle, hid, fun r' hr' _ => ?_⟩
        obtain ⟨r, hr', -, hser, -⟩ := hnew a r' hr'
        rw [hser, Option.some.inj (hr'.symm.trans hr)]
      · rw [Function.update_of_ne hyx] at hy
        obtain ⟨hle, hid, hnewer⟩ := h.claim y c hy
        refine ⟨hle, hid, fun r' hr' hold' => ?_⟩
        obtain ⟨r, hr, hold, hser, -⟩ := hnew _ r' hr'
        exact hser ▸ hnewer r hr (hold ▸ hold')
  | retPost x rc m pid comm jit addr c r hreg hx ha hr hid =>
    exact h.frame rfl rfl (sameTag_update hr ⟨rfl, rfl, rfl⟩) (claimed_of_setExec nofun)
  | retWake x rc pid comm jit addr c r hreg hx ha hr =>
    exact h.frame rfl rfl (sameTag_update hr ⟨rfl, rfl, rfl⟩) (claimed_of_setExec nofun)
  | requeue x c mm pid comm a hx ha =>
    exact ((hexec (x := x) (o := none) nofun).enqueue (a := a)
      (r := .make mm none pid comm c.parentPid c.parentComm c.jitAllowed)).frame rfl rfl
      (fun b q hq => ⟨q, hq, rfl, rfl, rfl⟩) fun _ _ hc => hc
  | rekey x m pid comm jit a old slot hreg hx hm ha =>
    have h' : (((s.pinUntrack slot).setExec x none).get m).Tagged :=
      h.frame rfl rfl hsame (claimed_of_setExec nofun)
    exact h'.enqueue
  | rekeyDropped x m pid comm jit old slot hreg hx hm =>
    have h' : ((s.pinUntrack slot).setExec x none).Tagged :=
      h.frame rfl rfl hsame (claimed_of_setExec nofun)
    exact h'.frame rfl rfl hsame fun _ _ hc => hc
  | cloneSchedule y c ppid pcomm jit a hy ha =>
    have h' : (s.setClone y none).Tagged := h.frame rfl rfl hsame fun _ _ hc => hc
    exact h'.enqueue
  | work a r w s' hr hw =>
    obtain ⟨hexecs, -, -, hseq, hserial, -, -⟩ := hw.frame
    refine h.frame hseq hserial ?_ fun x c hc => hexecs ▸ hc
    rcases hw.reqs with ⟨r', hreqs, hr'⟩ | hreqs
    · rw [hreqs]
      exact sameTag_update hr hr'
    · rw [hreqs]
      exact PartialMap.forall_update (fun b q _ => hsame b q) fun q hq => nomatch hq
  | unregister k => exact h.frame rfl rfl hsame fun _ _ hc => hc
  | dropPin i hi hreg hidle => exact h.frame rfl rfl hsame fun _ _ hc => hc
  | cloneSame y m cpid ccomm hy => exact h.frame rfl rfl hsame fun _ _ hc => hc
  | cloneGet y m cur cpid ccomm hy hm => exact h.frame rfl rfl hsame fun _ _ hc => hc
  | cloneDropped y c ppid pcomm jit hy => exact h.frame rfl rfl hsame fun _ _ hc => hc
  | _ => exact h.frame rfl rfl hsame (claimed_of_setExec nofun)

/-- As long as fewer than `2 ^ 32` requests were queued since the claimed one, the request the
return handler finds is the claimed one. -/
lemma serial_eq {c : ExecClaim} {x : InstId} (h : s.Tagged) (hx : s.execs x = some (.claimed c))
    (hr : s.reqs c.pendingReq = some r) (hold : r.oldMm = none) (hid : r.reqId = c.pendingId)
    (hfew : s.serial < c.serial + 2 ^ 32) : r.serial = c.serial := by
  obtain ⟨-, hid', hnewer⟩ := h.claim x c hx
  obtain ⟨hle, hid''⟩ := h.req _ r hr hold
  have hmod : r.serial % 2 ^ 32 = c.serial % 2 ^ 32 := by
    have := congrArg BitVec.toNat (hid''.symm.trans (hid.trans hid'))
    simpa using this
  have hge := hnewer r hr hold
  omega

end Handoff.Tagged

/-! ### Deliveries -/

/-- The worker has still to pass on a handoff of `m`. -/
def AcProtAddReq.Carries (r : AcProtAddReq) (m : ℕ) : Prop :=
  ∃ p, (r.postMm = some p ∨ r.pc = .consumed (some p)) ∧ p.mm = m

/-- The worker has yet to decide about the request's own mm. -/
def WorkPc.undecided : WorkPc → Bool
  | .queued => true
  | .waiting => true
  | .consumed _ => true
  | _ => false

/-- Unless the worker holds a handoff it consumed, what it carries is in `post_mm`. -/
lemma AcProtAddReq.Carries.postMm {r : AcProtAddReq} {m : ℕ} (h : r.Carries m)
    (hpc : r.pc.undecided = false ∨ r.pc.linked = true) : ∃ p, r.postMm = some p ∧ p.mm = m := by
  obtain ⟨p, hp | hp, hm⟩ := h
  · exact ⟨p, hp, hm⟩
  · rw [hp] at hpc
    simp [WorkPc.undecided, WorkPc.linked] at hpc

/-- After the wait a worker carries what it consumed. -/
lemma AcProtAddReq.Carries.consumed {r : AcProtAddReq} {m : ℕ} {o : Option Ref} (h : r.Carries m)
    (hok : r.Ok) (hpc : r.pc = .consumed o) : ∃ p, o = some p ∧ p.mm = m := by
  obtain ⟨p, hp | hp, hm⟩ := h
  · rw [hok.postMm_eq_none (by rw [hpc]; rfl)] at hp
    cases hp
  · exact ⟨p, WorkPc.consumed.inj (hpc.symm.trans hp), hm⟩

/-- The worker has passed on the request's own mm and is still linked. -/
def WorkPc.ownPassed : WorkPc → Bool
  | .addMm => true
  | .added _ => true
  | _ => false

namespace Handoff

/-- A handoff of `m` into request `q` was registered, or overwritten after `k` others were. -/
def Resolved (s : Handoff) (k q m : ℕ) : Prop :=
  (q, m) ∈ s.hist.passed ∨ (q, m) ∈ s.hist.superseded.drop k

/-- The worker of request `q`, queued for `m`, registered it or a handoff in its place. -/
def Registered (s : Handoff) (q m : ℕ) : Prop :=
  (q, m) ∈ s.hist.passed ∨ ∃ m', (q, m, m') ∈ s.hist.replaced ∧ (q, m') ∈ s.hist.passed

/-- A handoff of `m` is resolved or in the hands of request `q`. -/
def Posted (s : Handoff) (k q m : ℕ) : Prop :=
  s.Resolved k q m ∨ ∃ a r, s.reqs a = some r ∧ r.serial = q ∧ r.Carries m

/-- Request `q`, queued for `m`, is dealt with or has yet to decide. -/
def Queued (s : Handoff) (q m : ℕ) : Prop :=
  s.Registered q m ∨
    ∃ a r, s.reqs a = some r ∧ r.serial = q ∧ r.mm.mm = m ∧ r.pc.undecided = true

/-- A worker past its own call of `ac_add_prot_mm` has made it. -/
def OwnPassed (s : Handoff) : Prop :=
  ∀ a r, s.reqs a = some r → r.pc.ownPassed = true → (r.serial, r.mm.mm) ∈ s.hist.passed

/-- Histories only grow. -/
structure Grows (s s' : Handoff) : Prop where
  passed : s.hist.passed <+: s'.hist.passed
  superseded : s.hist.superseded <+: s'.hist.superseded
  replaced : s.hist.replaced <+: s'.hist.replaced
  emits : s.emits <+: s'.emits

/-- What a step does with the images that requests are to register. -/
structure Settles (s s' : Handoff) : Prop where
  grows : s.Grows s'
  carried : ∀ a r m, s.reqs a = some r → r.Carries m →
    s'.Posted s.hist.superseded.length r.serial m
  queued : ∀ a r, s.reqs a = some r → r.pc.undecided = true → s'.Queued r.serial r.mm.mm
  own : s'.OwnPassed

variable {s s' : Handoff} {a : ℕ} {r r' : AcProtAddReq}

/-! #### What is known of an image stays known -/

lemma Resolved.mono {k k' q m : ℕ} (h : s.Resolved k q m) (hk : k' ≤ k) (hg : s.Grows s') :
    s'.Resolved k' q m := by
  refine h.imp (fun hp => hg.passed.subset hp) fun hs => ?_
  have hle : s.hist.superseded.drop k ⊆ s.hist.superseded.drop k' :=
    (List.drop_sublist_drop_left _ hk).subset
  exact (hg.superseded.drop k').subset (hle hs)

lemma Registered.mono {q m : ℕ} (h : s.Registered q m) (hg : s.Grows s') : s'.Registered q m :=
  h.imp (fun hp => hg.passed.subset hp) fun ⟨m', hr, hp⟩ =>
    ⟨m', hg.replaced.subset hr, hg.passed.subset hp⟩

lemma Grows.refl (s : Handoff) : s.Grows s :=
  ⟨List.prefix_rfl, List.prefix_rfl, List.prefix_rfl, List.prefix_rfl⟩

/-- An event stays where it is. -/
lemma Grows.event {n : ℕ} {e : AcEmit} (hg : s.Grows s') (h : s.emits[n]? = some e) :
    s'.emits[n]? = some e := by
  obtain ⟨hn, rfl⟩ := List.getElem?_eq_some_iff.mp h
  exact List.prefix_iff_getElem?.mp hg.emits n hn

lemma Posted.step {k q m : ℕ} (h : s.Posted k q m) (hk : k ≤ s.hist.superseded.length)
    (hs : s.Settles s') : s'.Posted k q m := by
  rcases h with hres | ⟨a, r, hr, rfl, hc⟩
  · exact .inl (hres.mono le_rfl hs.grows)
  · exact (hs.carried a r m hr hc).imp_left fun hres => hres.mono hk (.refl s')

lemma Queued.step {q m : ℕ} (h : s.Queued q m) (hs : s.Settles s') : s'.Queued q m := by
  rcases h with hreg | ⟨a, r, hr, rfl, rfl, hpc⟩
  · exact .inl (hreg.mono hs.grows)
  · exact hs.queued a r hr hpc

/-! #### Every step settles what it takes away -/

namespace OwnPassed

lemma init : Handoff.init.OwnPassed := fun _ _ h => nomatch h

/-- A step that leaves the requests alone. -/
lemma frame (h : s.OwnPassed) (hreqs : s'.reqs = s.reqs) (hg : s.Grows s') : s.Settles s' where
  grows := hg
  carried a r _ hr hc := .inr ⟨a, r, hreqs ▸ hr, rfl, hc⟩
  queued a r hr hpc := .inr ⟨a, r, hreqs ▸ hr, rfl, rfl, hpc⟩
  own a r hr hpc := hg.passed.subset (h a r (hreqs ▸ hr) hpc)

/-- A step that changes one request, `o` being what is there afterwards. -/
lemma set {o : Option AcProtAddReq} (h : s.OwnPassed) (hr : s.reqs a = some r)
    (hreqs : s'.reqs = Function.update s.reqs a o) (hg : s.Grows s')
    (hcarry : ∀ m, r.Carries m → s'.Resolved s.hist.superseded.length r.serial m ∨
      ∃ r', o = some r' ∧ r'.serial = r.serial ∧ r'.Carries m)
    (hown : r.pc.undecided = true → s'.Registered r.serial r.mm.mm ∨
      ∃ r', o = some r' ∧ r'.serial = r.serial ∧ r'.mm = r.mm ∧ r'.pc.undecided = true)
    (hpassed : ∀ r', o = some r' → r'.pc.ownPassed = true →
      (r'.serial, r'.mm.mm) ∈ s'.hist.passed) : s.Settles s' := by
  have hother : ∀ b q, b ≠ a → s.reqs b = some q → s'.reqs b = some q := by
    intro b q hb hq
    rw [hreqs, Function.update_of_ne hb, hq]
  refine ⟨hg, fun b q m hq hc => ?_, fun b q hq hpc => ?_, ?_⟩
  · by_cases hb : b = a
    · subst hb
      obtain rfl : q = r := Option.some.inj (hq.symm.trans hr)
      refine (hcarry m hc).imp_right ?_
      rintro ⟨r', rfl, hr'⟩
      exact ⟨b, r', by rw [hreqs, Function.update_self], hr'⟩
    · exact .inr ⟨b, q, hother b q hb hq, rfl, hc⟩
  · by_cases hb : b = a
    · subst hb
      obtain rfl : q = r := Option.some.inj (hq.symm.trans hr)
      refine (hown hpc).imp_right ?_
      rintro ⟨r', rfl, hser, hmm', hpc'⟩
      exact ⟨b, r', by rw [hreqs, Function.update_self], hser, by rw [hmm'], hpc'⟩
    · exact .inr ⟨b, q, hother b q hb hq, rfl, rfl, hpc⟩
  · unfold OwnPassed
    rw [hreqs]
    exact PartialMap.forall_update (fun b q _ hq hpc => hg.passed.subset (h b q hq hpc)) hpassed

/-- A new request. -/
lemma enqueue (h : s.OwnPassed) (ha : s.reqs a = none)
    (hreqs : s'.reqs = Function.update s.reqs a (some r)) (hg : s.Grows s') (hpc : r.pc = .queued) :
    s.Settles s' := by
  have hother : ∀ b q, s.reqs b = some q → s'.reqs b = some q := by
    intro b q hq
    have hb : b ≠ a := by
      rintro rfl
      rw [ha] at hq
      cases hq
    rw [hreqs, Function.update_of_ne hb, hq]
  refine ⟨hg, fun b q _ hq hc => ?_, fun b q hq hpc => ?_, ?_⟩
  · exact .inr ⟨b, q, hother b q hq, rfl, hc⟩
  · exact .inr ⟨b, q, hother b q hq, rfl, rfl, hpc⟩
  · unfold OwnPassed
    rw [hreqs]
    refine PartialMap.forall_update (fun b q _ hq hpc => hg.passed.subset (h b q hq hpc)) ?_
    rintro q ⟨⟩ hq
    rw [hpc] at hq
    cases hq

/-- A handler marks a linked request. -/
lemma mark (h : s.OwnPassed) (hr : s.reqs a = some r)
    (hreqs : s'.reqs = Function.update s.reqs a (some r')) (hg : s.Grows s') (hmm : r'.mm = r.mm)
    (hser : r'.serial = r.serial) (hpc : r'.pc = r.pc) (hpost : r'.postMm = r.postMm) :
    s.Settles s' := by
  refine h.set hr hreqs hg (fun m hm => ?_) (fun hund => ?_) ?_
  · refine .inr ⟨r', rfl, hser, ?_⟩
    simpa only [AcProtAddReq.Carries, hpc, hpost] using hm
  · exact .inr ⟨r', rfl, hser, hmm, hpc ▸ hund⟩
  · rintro q ⟨⟩ hq
    rw [hser, hmm]
    exact hg.passed.subset (h a r hr (hpc ▸ hq))

end OwnPassed

lemma WorkRule.grows {w : WorkAct} (hw : WorkRule s a r w s') : s.Grows s' := by
  cases hw <;> constructor <;>
    first
    | exact List.prefix_rfl
    | exact List.prefix_append _ _
    | exact (List.prefix_append _ _).trans (List.prefix_append _ _)

lemma OwnPassed.work {w : WorkAct} (h : s.OwnPassed) (hok : r.Ok) (hr : s.reqs a = some r)
    (hw : WorkRule s a r w s') : s.Settles s' := by
  have hg := hw.grows
  -- a branch that leaves what it carries in `post_mm`
  have hkeep : ∀ {pc : WorkPc}, r.pc.undecided = false ∨ r.pc.linked = true → ∀ m, r.Carries m →
      s'.Resolved s.hist.superseded.length r.serial m ∨ ∃ r', some { r with pc := pc } = some r' ∧
        r'.serial = r.serial ∧ r'.Carries m := by
    intro pc hpc m hm
    obtain ⟨p, hp, hm⟩ := hm.postMm hpc
    exact .inr ⟨_, rfl, rfl, p, .inl hp, hm⟩
  cases hw with
  | wait hpc hold hclaimed =>
    refine h.set hr rfl hg (hkeep (by simp [hpc, WorkPc.linked])) ?_ ?_
    · exact fun _ => .inr ⟨_, rfl, rfl, rfl, rfl⟩
    · rintro r' ⟨⟩ hpc'
      cases hpc'
  | addMm hpc hfree =>
    have hmem : (r.serial, r.mm.mm) ∈ s.hist.passed ++ [(r.serial, r.mm.mm)] := by simp
    refine h.set hr rfl hg (hkeep (by simp [hpc, WorkPc.linked])) ?_ ?_
    · exact fun _ => .inl (.inl hmem)
    · rintro r' ⟨⟩ -
      exact hmem
  | wake timedOut hpc hdone =>
    refine h.set hr rfl hg (fun m hm => ?_) ?_ ?_
    · obtain ⟨p, hp, hm⟩ := hm.postMm (by simp [hpc, WorkPc.linked])
      exact .inr ⟨_, rfl, r.consume_serial, p, .inr (by rw [r.consume_pc, hp]), hm⟩
    · refine fun _ => .inr ⟨_, rfl, r.consume_serial, r.consume_mm, ?_⟩
      rw [r.consume_pc]
      rfl
    · rintro r' ⟨⟩ hpc'
      rw [r.consume_pc] at hpc'
      cases hpc'
  | adopt p hpc =>
    have hmem : (r.serial, p.mm) ∈ s.hist.passed ++ [(r.serial, p.mm)] := by simp
    refine h.set hr rfl hg (fun m hm => ?_) ?_ ?_
    · obtain ⟨_, ⟨⟩, rfl⟩ := hm.consumed hok hpc
      exact .inl (.inl hmem)
    · exact fun _ => .inl (.inr ⟨p.mm, List.mem_append_right _ (List.mem_singleton.mpr rfl), hmem⟩)
    · rintro r' ⟨⟩ hpc'
      cases hpc'
  | lost hpc =>
    have hmem : (r.serial, r.mm.mm) ∈ s.hist.passed ++ [(r.serial, r.mm.mm)] := by simp
    refine h.set hr rfl hg (fun m hm => ?_) (fun _ => .inl (.inl hmem)) ?_
    · obtain ⟨_, ⟨⟩, -⟩ := hm.consumed hok hpc
    · rintro r' ⟨⟩ hpc'
      cases hpc'
  | addedMm ret hpc =>
    refine h.set hr rfl hg (hkeep (by simp [hpc, WorkPc.linked])) ?_ ?_
    · simp [hpc, WorkPc.undecided]
    · rintro r' ⟨⟩ -
      exact h a r hr (by rw [hpc]; rfl)
  | unlinkSame ret p hpc hold hpost hmm =>
    refine h.set hr rfl hg (fun m hm => ?_) ?_ ?_
    · obtain ⟨p', hp', rfl⟩ := hm.postMm (by simp [hpc, WorkPc.linked])
      obtain rfl : p = p' := Option.some.inj (hpost.symm.trans hp')
      rw [hmm]
      exact .inl (.inl (h a r hr (by rw [hpc]; rfl)))
    · simp [hpc, WorkPc.undecided]
    · rintro r' ⟨⟩ hpc'
      cases hpc'
  | unlinkLate ret p hpc hold hpost hmm =>
    refine h.set hr rfl hg (fun m hm => ?_) ?_ ?_
    · obtain ⟨p', hp', rfl⟩ := hm.postMm (by simp [hpc, WorkPc.linked])
      obtain rfl : p = p' := Option.some.inj (hpost.symm.trans hp')
      exact .inl (.inl (List.mem_append_right _ (List.mem_singleton.mpr rfl)))
    · simp [hpc, WorkPc.undecided]
    · rintro r' ⟨⟩ hpc'
      cases hpc'
  | finish hpc =>
    refine h.set hr rfl hg (fun m hm => ?_) ?_ (by simp)
    · obtain ⟨p, hp, -⟩ := hm.postMm (by simp [hpc, WorkPc.undecided])
      rw [hok.postMm_eq_none (by rw [hpc]; rfl)] at hp
      cases hp
    · simp [hpc, WorkPc.undecided]
  | _ =>
    -- the others have decided, and call nothing
    refine h.set hr rfl hg (hkeep (by simp_all [WorkPc.undecided, WorkPc.linked])) ?_ ?_
    · intro hpc'
      simp_all [WorkPc.undecided]
    · rintro r' ⟨⟩ hpc'
      cases hpc'

lemma superseded_postMm (s : Handoff) (a : ℕ) (r : AcProtAddReq) (m : ℕ) (pid : ℤ)
    (comm : String) : s.hist.superseded <+: (s.postMm a r m pid comm).hist.superseded := by
  unfold postMm
  cases r.postMm with
  | none => exact List.prefix_rfl
  | some p => exact List.prefix_append _ _

lemma grows_of_step {act : HandoffAct} (hstep : s.step act = some s') : s.Grows s' := by
  cases rule_of_step hstep with
  | work a r w s' hr hw => exact hw.grows
  | retPost x rc m pid comm jit addr c r hreg hx ha hr hid =>
    exact ⟨List.prefix_rfl, s.superseded_postMm c.pendingReq r m pid comm, List.prefix_rfl,
      List.prefix_rfl⟩
  | _ =>
    constructor <;>
      first
      | exact List.prefix_rfl
      | exact List.prefix_append _ _

theorem OwnPassed.settles {act : HandoffAct} (h : s.OwnPassed) (hlink : s.Linked)
    (hstep : s.step act = some s') : s.Settles s' := by
  have hg := grows_of_step hstep
  cases rule_of_step hstep with
  | scanClaim x m tgid a r hx ha hr hclaim => exact h.mark hr rfl hg rfl rfl rfl rfl
  | retWake x rc pid comm jit addr c r hreg hx ha hr => exact h.mark hr rfl hg rfl rfl rfl rfl
  | retPost x rc m pid comm jit addr c r hreg hx ha hr hid =>
    obtain ⟨q, hq, hlinked⟩ := (hlink.mem_iff c.pendingReq).mp ha
    obtain rfl : q = r := Option.some.inj (hq.symm.trans hr)
    refine h.set hr rfl hg ?_ ?_ ?_
    · rintro k ⟨p, hp | hp, rfl⟩
      · -- the handoff that was there is overwritten
        refine .inl (.inr ?_)
        show (q.serial, p.mm) ∈ List.drop _ (s.postMm c.pendingReq q m pid comm).hist.superseded
        simp [postMm, hp]
      · have := hlinked.2
        rw [hp] at this
        cases this
    · exact fun hund => .inr ⟨_, rfl, rfl, rfl, hund⟩
    · rintro r' ⟨⟩ hpc
      exact h _ q hr hpc
  | requeue x c mm pid comm a hx ha => exact h.enqueue ha rfl hg rfl
  | rekey x m pid comm jit a old slot hreg hx hm ha => exact h.enqueue ha rfl hg rfl
  | cloneSchedule y c ppid pcomm jit a hy ha => exact h.enqueue ha rfl hg rfl
  | work a r w s' hr hw => exact h.work (hlink.ok a r hr) hr hw
  | _ => exact h.frame rfl hg

/-! #### The return handler -/

/-- The condition under which tags do not wrap: a return handler that looks for a claimed request
runs before `2 ^ 32` further requests were queued. -/
def tagFresh (s : Handoff) : HandoffAct → Bool
  | .execRet x .. =>
    match s.execs x with
    | some (.claimed c) => decide (s.serial < c.serial + 2 ^ 32)
    | _ => true
  | _ => true

/-- `ac_exec_ret` hands the image it finds to the claimed request, or has it at hand. -/
lemma posted_or_requeue {x : InstId} {rc : ℤ} {m : ℕ} {pid : ℤ} {comm : String} {jit : Bool}
    {addr : Option ℕ} {c : ExecClaim} (hlink : s.Linked) (htag : s.Tagged)
    (hx : s.execs x = some (.claimed c))
    (hfresh : s.tagFresh (.execRet x rc (some m) pid comm jit addr) = true)
    (hstep : s.step (.execRet x rc (some m) pid comm jit addr) = some s') :
    s'.Posted s'.hist.superseded.length c.serial m ∨
      s'.execs x = some (.requeue c (s.nextRef m) pid comm) := by
  -- the other rules are for instances that claimed nothing
  have hother : ∀ {i : ExecInst}, s.execs x = some i → i = .claimed c :=
    fun hi => Option.some.inj (hi.symm.trans hx)
  cases rule_of_step hstep with
  | retPlain _ _ _ _ _ _ _ hreg hx' => cases hother hx'
  | retPost _ _ _ _ _ _ _ c' r hreg hx' ha hr hid =>
    cases hother hx'
    obtain ⟨q, hq, hlinked⟩ := (hlink.mem_iff c.pendingReq).mp ha
    obtain rfl : q = r := Option.some.inj (hq.symm.trans hr)
    have hser : q.serial = c.serial := by
      refine htag.serial_eq hx hr hlinked.1 hid ?_
      simpa [tagFresh, hx] using hfresh
    exact .inl (.inr ⟨_, _, Function.update_self .., hser, s.nextRef m, .inl rfl, rfl⟩)
  | retGone _ _ _ _ _ _ _ c' hreg hx' =>
    cases hother hx'
    exact .inr (Function.update_self ..)
  | rekeyFailed _ _ _ _ _ _ _ old slot hreg hx' hfail => cases hother hx'
  | rekeySame _ _ _ _ _ old slot hreg hx' => cases hother hx'
  | rekey _ _ _ _ _ a old slot hreg hx' hm ha => cases hother hx'
  | rekeyDropped _ _ _ _ _ old slot hreg hx' hm => cases hother hx'

/-- Only the rest of `ac_exec_ret` itself takes the image out of its hands. -/
lemma requeue_of_leaving {x : InstId} {c : ExecClaim} {mm : Ref} {pid : ℤ} {comm : String}
    {act : HandoffAct} (hx : s.execs x = some (.requeue c mm pid comm))
    (hstep : s.step act = some s') (hleave : s'.execs x ≠ some (.requeue c mm pid comm)) :
    ∃ addr, act = .requeue x addr := by
  rw [← hx] at hleave
  -- a step of another instance
  have hset : ∀ {y : InstId} {o : Option ExecInst}, s.execs y ≠ s.execs x →
      Function.update s.execs y o x = s.execs x := by
    intro y o hy
    refine Function.update_of_ne ?_ _ _
    rintro rfl
    exact hy rfl
  cases rule_of_step hstep with
  | requeue y c' mm' pid' comm' a hy ha =>
    by_cases hyx : x = y
    · exact ⟨_, by rw [hyx]⟩
    · exact absurd (Function.update_of_ne hyx _ _) hleave
  | requeueDropped y c' mm' pid' comm' hy =>
    by_cases hyx : x = y
    · exact ⟨_, by rw [hyx]⟩
    · exact absurd (Function.update_of_ne hyx _ _) hleave
  | discard y i hreg hy hi =>
    refine absurd (hset ?_) hleave
    rw [hy, hx]
    rintro ⟨⟩
    cases hi
  | work a r w s' hr hw => exact absurd (by rw [hw.frame.1]) hleave
  | _ =>
    first
    | exact absurd rfl hleave
    | exact absurd (hset (by simp_all)) hleave

/-- In the course of `acts`, taken from `s`, the rest of `ac_exec_ret` runs for an instance that has
the image `mm` at hand; `t` and `t'` are the states before and after, and `addr` is what the
allocator gave it. -/
structure Requeues (s : Handoff) (acts : List HandoffAct) (x : InstId) (c : ExecClaim) (mm : Ref)
    (pid : ℤ) (comm : String) (addr : Option ℕ) (t t' : Handoff) : Prop where
  taken : ∃ acts₁ acts₂, acts = acts₁ ++ .requeue x addr :: acts₂ ∧ run step s acts₁ = some t
  exec : t.execs x = some (.requeue c mm pid comm)
  step : t.step (.requeue x addr) = some t'

lemma queued_of_requeue {x : InstId} {c : ExecClaim} {mm : Ref} {pid : ℤ} {comm : String}
    (hx : s.execs x = some (.requeue c mm pid comm))
    (hstep : s.step (.requeue x (some a)) = some s') :
    ∃ r, s'.reqs a = some r ∧ r.mm = mm ∧ s'.Queued r.serial mm.mm := by
  cases rule_of_step hstep with
  | requeue _ c' mm' pid' comm' _ hx' ha =>
    cases hx.symm.trans hx'
    refine ⟨_, Function.update_self .., rfl, .inr ⟨a, _, Function.update_self .., rfl, rfl, rfl⟩⟩

lemma emits_of_requeue {x : InstId} {c : ExecClaim} {mm : Ref} {pid : ℤ} {comm : String}
    (hx : s.execs x = some (.requeue c mm pid comm)) (hstep : s.step (.requeue x none) = some s') :
    s'.emits[s.emits.length]? = some (handoffDroppedEvent pid comm c) := by
  cases rule_of_step hstep with
  | requeueDropped _ c' mm' pid' comm' hx' =>
    cases hx.symm.trans hx'
    exact List.getElem?_concat_length

/-! #### Whole runs -/

/-- What holds of every state reached while tags do not wrap. -/
structure DeliveryInv (s : Handoff) : Prop where
  linked : s.Linked
  tagged : s.Tagged
  own : s.OwnPassed

lemma DeliveryInv.step {act : HandoffAct} (h : s.DeliveryInv) (hstep : s.step act = some s') :
    s'.DeliveryInv :=
  ⟨h.linked.step hstep, h.tagged.step h.linked hstep, (h.own.settles h.linked hstep).own⟩

lemma DeliveryInv.of_run {acts : List HandoffAct} (hrun : run Handoff.step init acts = some s) :
    s.DeliveryInv :=
  run_invariant (fun _ _ _ h hstep => h.step hstep) ⟨.init, .init, .init⟩ hrun

/-- A property of the state that every step keeps which settles what it takes away. -/
lemma DeliveryInv.run {P : Handoff → Prop} {acts : List HandoffAct} (h : s.DeliveryInv) (hs : P s)
    (hP : ∀ s s' : Handoff, P s → s.Settles s' → P s')
    (hrun : Transition.run Handoff.step s acts = some s') : P s' := by
  have hboth : s'.DeliveryInv ∧ P s' := by
    refine run_invariant (P := fun s => s.DeliveryInv ∧ P s) ?_ ⟨h, hs⟩ hrun
    rintro t act t' ⟨ht, hPt⟩ hstep
    exact ⟨ht.step hstep, hP t t' hPt (ht.own.settles ht.linked hstep)⟩
  exact hboth.2

end Handoff

open Handoff in
/-- An exec's return handler that claimed a request finds the image `m`. Once the queue has drained
and no handler is under way, `m` was passed to `ac_add_prot_mm` by the worker of the claimed
request or of the fresh one that this handler queued, or a later handoff took its place in one of
the two, or this handler reported its loss; and no request is freed while it holds a handoff. -/
theorem handoff_delivered {acts₁ acts₂ : List HandoffAct} {s t s' : Handoff} {x : InstId} {rc : ℤ}
    {m : ℕ} {pid : ℤ} {comm : String} {jit : Bool} {addr : Option ℕ} {c : ExecClaim}
    (hrun₁ : run (restrict tagFresh step) init acts₁ = some s)
    (hx : s.execs x = some (.claimed c))
    (hret : restrict tagFresh step s (.execRet x rc (some m) pid comm jit addr) = some t)
    (hrun₂ : run (restrict tagFresh step) t acts₂ = some s') :
    ((∀ a, s'.reqs a = none) → (∀ y i, s'.execs y = some i → i.inHandler = false) →
      (c.serial, m) ∈ s'.hist.passed ∨
      (∃ a u v r, t.Requeues acts₂ x c (s.nextRef m) pid comm (some a) u v ∧
        v.reqs a = some r ∧ (r.serial, m) ∈ s'.hist.passed) ∨
      (c.serial, m) ∈ s'.hist.superseded.drop t.hist.superseded.length ∨
      (∃ a u v r m', t.Requeues acts₂ x c (s.nextRef m) pid comm (some a) u v ∧
        v.reqs a = some r ∧ (r.serial, m, m') ∈ s'.hist.replaced ∧
        (r.serial, m') ∈ s'.hist.passed) ∨
      ∃ u v, t.Requeues acts₂ x c (s.nextRef m) pid comm none u v ∧
        s'.emits[u.emits.length]? = some (handoffDroppedEvent pid comm c)) ∧
    ∀ a r s'', s'.reqs a = some r → s'.step (.work a .finish) = some s'' → r.postMm = none := by
  obtain ⟨hfresh, hret⟩ := restrict_eq_some.mp hret
  replace hrun₂ := run_of_run_restrict hrun₂
  have hs := DeliveryInv.of_run (run_of_run_restrict hrun₁)
  have ht := hs.step hret
  refine ⟨fun hnone hdone => ?_, fun a r s'' hr hfinish => ?_⟩
  · rcases posted_or_requeue hs.linked hs.tagged hx hfresh hret with hpost | hhand
    · -- in the hands of the claimed request
      have hend := ht.run (P := fun u => t.hist.superseded.length ≤ u.hist.superseded.length ∧
        u.Posted t.hist.superseded.length c.serial m) ⟨le_rfl, hpost⟩
        (fun u u' hu hset => ⟨hu.1.trans hset.grows.superseded.length_le, hu.2.step hu.1 hset⟩)
        hrun₂
      rcases hend.2 with (hp | hsup) | ⟨a, r, hr, -⟩
      · exact .inl hp
      · exact .inr (.inr (.inl hsup))
      · rw [hnone a] at hr
        cases hr
    · -- in those of the handler, until it takes its last step
      have hout : ¬ s'.execs x = some (.requeue c (s.nextRef m) pid comm) := fun h =>
        Bool.noConfusion (hdone x _ h)
      obtain ⟨bs₁, act, bs₂, u, v, rfl, hu, hux, hstep, hleave, hrest⟩ :=
        exists_step_leaving (P := fun u => u.execs x = some (.requeue c (s.nextRef m) pid comm))
          hhand hout hrun₂
      obtain ⟨addr', rfl⟩ := requeue_of_leaving hux hstep hleave
      have hv : v.DeliveryInv := by
        have hinv : u.DeliveryInv := run_invariant (fun _ _ _ h hst => h.step hst) ht hu
        exact hinv.step hstep
      have hreq :
          t.Requeues (bs₁ ++ .requeue x addr' :: bs₂) x c (s.nextRef m) pid comm addr' u v :=
        ⟨⟨bs₁, bs₂, rfl, hu⟩, hux, hstep⟩
      cases addr' with
      | some a =>
        obtain ⟨r, hr, -, hq⟩ := queued_of_requeue hux hstep
        have hend := hv.run (P := fun w => w.Queued r.serial m) hq (fun _ _ h hset => h.step hset)
          hrest
        rcases hend with (hp | ⟨m', hrep, hp⟩) | ⟨b, r', hr', -⟩
        · exact .inr (.inl ⟨a, u, v, r, hreq, hr, hp⟩)
        · exact .inr (.inr (.inr (.inl ⟨a, u, v, r, m', hreq, hr, hrep, hp⟩)))
        · rw [hnone b] at hr'
          cases hr'
      | none =>
        have hend := hv.run (P := fun w => w.emits[u.emits.length]? =
          some (handoffDroppedEvent pid comm c)) (emits_of_requeue hux hstep)
          (fun _ _ h hset => hset.grows.event h) hrest
        exact .inr (.inr (.inr (.inr ⟨u, v, hreq, hend⟩)))
  · cases rule_of_step hfinish with
    | work a r' w s'' hr' hw =>
      obtain rfl : r = r' := Option.some.inj (hr.symm.trans hr')
      cases hw with
      | finish hpc =>
        have hend : s'.DeliveryInv := run_invariant (fun _ _ _ h hst => h.step hst) ht hrun₂
        exact (hend.linked.ok a r hr).postMm_eq_none (by rw [hpc]; rfl)

/-- A child execs while the worker registers its first image; the request is gone when the exec
returns. -/
def claimantRun : List HandoffAct :=
  [.cloneGet 0 10 5 100 "child", .cloneSchedule 0 50 "game" false (some 0), .work 0 .start,
    .entryMiss (0, 0), .entryScan (0, 0) 10 100, .work 0 (.added 0), .work 0 .unlink,
    .work 0 .finish]

def claimantClaim : ExecClaim := ⟨0, 1, false, 50, "game", 1⟩

/-- The exec of `claimantRun` returns. -/
def claimantRet : HandoffAct := .execRet (0, 0) 0 (some 11) 100 "child" false none

/-- The second image gets a request of its own; before that request runs, the child execs again. -/
def replacedRun : List HandoffAct :=
  [.requeue (0, 0) (some 0), .entryMiss (0, 0), .entryScan (0, 0) 11 100,
    .execRet (0, 0) 0 (some 12) 100 "child" false none,
    .work 0 .start, .work 0 (.wake false), .work 0 .adopt, .work 0 (.added 0), .work 0 .finish]

lemma claimantRun_runs :
    (run (restrict Handoff.tagFresh Handoff.step) Handoff.init claimantRun).isSome = true := by
  decide +kernel

/-- The end of `claimantRun`. -/
def claimantEnd : Handoff :=
  (run (restrict Handoff.tagFresh Handoff.step) Handoff.init claimantRun).get claimantRun_runs

lemma claimantRet_runs :
    (restrict Handoff.tagFresh Handoff.step claimantEnd claimantRet).isSome = true := by
  decide +kernel

/-- The state after that. -/
def claimantReturned : Handoff :=
  (restrict Handoff.tagFresh Handoff.step claimantEnd claimantRet).get claimantRet_runs

lemma replacedRun_runs :
    (run (restrict Handoff.tagFresh Handoff.step) claimantReturned replacedRun).isSome = true := by
  decide +kernel

/-- The end of `replacedRun`. -/
def replacedEnd : Handoff :=
  (run (restrict Handoff.tagFresh Handoff.step) claimantReturned replacedRun).get replacedRun_runs

/-- What the two runs lead to. -/
lemma replacedEnd_spec :
    claimantEnd.execs (0, 0) = some (.claimed claimantClaim) ∧ replacedEnd.reqs 0 = none ∧
      (∀ y, replacedEnd.execs y = none) ∧ replacedEnd.hist.passed = [(1, 10), (2, 12)] := by
  decide +kernel

lemma replacedEnd_reqs (a : ℕ) : replacedEnd.reqs a = none := by
  cases a with
  | zero => exact replacedEnd_spec.2.1
  | succ n => rfl

theorem handoff_delivered_replacedRun :
    run (restrict Handoff.tagFresh Handoff.step) Handoff.init claimantRun = some claimantEnd ∧
    restrict Handoff.tagFresh Handoff.step claimantEnd claimantRet = some claimantReturned ∧
    run (restrict Handoff.tagFresh Handoff.step) claimantReturned replacedRun = some replacedEnd ∧
      ∃ a u v r m', claimantReturned.Requeues replacedRun (0, 0) claimantClaim
          (claimantEnd.nextRef 11) 100 "child" (some a) u v ∧ v.reqs a = some r ∧
        (r.serial, 11, m') ∈ replacedEnd.hist.replaced ∧
        (r.serial, m') ∈ replacedEnd.hist.passed := by
  have hrun₁ := (Option.some_get claimantRun_runs).symm
  have hret := (Option.some_get claimantRet_runs).symm
  have hrun₂ := (Option.some_get replacedRun_runs).symm
  refine ⟨hrun₁, hret, hrun₂, ?_⟩
  have hidle : ∀ y i, replacedEnd.execs y = some i → i.inHandler = false := by
    intro y i hi
    rw [replacedEnd_spec.2.2.1] at hi
    cases hi
  have hnot : ∀ q, (q, 11) ∉ replacedEnd.hist.passed := by
    intro q hq
    simp [replacedEnd_spec] at hq
  rcases (handoff_delivered hrun₁ replacedEnd_spec.1 hret hrun₂).1 replacedEnd_reqs hidle with
    h | ⟨a, u, v, r, -, -, h⟩ | h | h | ⟨u, v, hreq, -⟩
  · exact absurd h (hnot _)
  · exact absurd h (hnot _)
  · exact absurd h (by decide +kernel)
  · exact h
  · -- the allocation succeeds
    obtain ⟨bs₁, bs₂, heq, -⟩ := hreq.taken
    have hmem : HandoffAct.requeue (0, 0) none ∈ replacedRun := by simp [heq]
    exact absurd hmem (by decide)

/-! ### When a tag wraps -/

/-- After `s` the exec of instance `x`, which claimed a request, returns with the image `m`; then
the rest `acts` of the run brings everything to rest. Neither the worker of the claimed request nor
that of a fresh one registered `m`, nothing overwrote it in the claimed request, and no event
reports anything unprotected. -/
structure Handoff.Loses (s : Handoff) (x : InstId) (c : ExecClaim) (m : ℕ) (ret : HandoffAct)
    (acts : List HandoffAct) (s' : Handoff) : Prop where
  exec : s.execs x = some (.claimed c)
  returns : ∃ rc pid comm jit addr, ret = .execRet x rc (some m) pid comm jit addr
  rest : run Handoff.step s (ret :: acts) = some s'
  drained : ∀ a, s'.reqs a = none
  idle : ∀ y i, s'.execs y = some i → i.inHandler = false
  claimed : (c.serial, m) ∉ s'.hist.passed
  fresh : (∀ addr, HandoffAct.requeue x addr ∉ acts) ∨ ∀ q, (q, m) ∉ s'.hist.passed
  superseded : (c.serial, m) ∉ s'.hist.superseded
  reported : ∀ ev ∈ s'.emits, ev.type ≠ .info

lemma claimantEnd_loses :
    claimantEnd.Loses (0, 0) claimantClaim 11 claimantRet replacedRun replacedEnd where
  exec := replacedEnd_spec.1
  returns := ⟨0, 100, "child", false, none, rfl⟩
  rest := by
    have hret := (restrict_eq_some.mp (Option.some_get claimantRet_runs).symm).2
    have hrun := run_of_run_restrict (Option.some_get replacedRun_runs).symm
    exact run_cons_eq_some.mpr ⟨claimantReturned, hret, hrun⟩
  drained := replacedEnd_reqs
  idle y i hi := by
    rw [replacedEnd_spec.2.2.1] at hi
    cases hi
  claimed := by simp [replacedEnd_spec]
  fresh := .inr fun q => by simp [replacedEnd_spec]
  superseded := by decide +kernel
  reported := by decide +kernel

/-- A fork whose request is queued at address 0, served and freed. -/
def forkCycle : List HandoffAct :=
  [.cloneGet 0 20 5 200 "other", .cloneSchedule 0 50 "game" false (some 0), .work 0 .start,
    .work 0 (.added 0), .work 0 .unlink, .work 0 .finish]

/-- Nothing is queued, and an exec is under way that claimed the first request ever queued. -/
structure Handoff.Claimant (s : Handoff) (n : ℕ) : Prop where
  reqs : s.reqs = fun _ => none
  pending : s.pending = []
  clones : s.clones = fun _ => none
  seq : s.seq = BitVec.ofNat 32 n
  serial : s.serial = n
  registered : s.registered 0 = true
  exec : s.execs (0, 0) = some (.claimed claimantClaim)
  idle : ∀ y i, s.execs y = some i → i.inHandler = false
  superseded : s.hist.superseded = []
  passed : (1, 11) ∉ s.hist.passed
  emits : ∀ ev ∈ s.emits, ev.type ≠ .info

lemma Handoff.Claimant.forkCycle {s : Handoff} {n : ℕ} (h : s.Claimant n) :
    ∃ s', run Handoff.step s forkCycle = some s' ∧ s'.Claimant (n + 1) := by
  obtain ⟨reqs, pending, seq, execs, clones, pins, registered, dropNext, emits, taken, dropped,
    owner, serial, hist⟩ := s
  obtain rfl : reqs = fun _ => none := h.reqs
  obtain rfl : pending = [] := h.pending
  obtain rfl : clones = fun _ => none := h.clones
  obtain rfl : seq = BitVec.ofNat 32 n := h.seq
  obtain rfl : serial = n := h.serial
  refine ⟨_, rfl, ?_⟩
  constructor
  · funext a
    cases a <;> rfl
  · rfl
  · funext y
    by_cases hy : y = 0
    · subst hy
      rfl
    · exact (Function.update_of_ne hy _ _).trans (Function.update_of_ne hy _ _)
  · show BitVec.ofNat 32 serial + 1 = BitVec.ofNat 32 (serial + 1)
    simp [BitVec.ofNat_add]
  · rfl
  · exact h.registered
  · exact h.exec
  · exact h.idle
  · exact h.superseded
  · show (1, 11) ∉ hist.passed ++ [(serial + 1, 20)]
    simpa using h.passed
  · exact List.forall_mem_append.mpr ⟨h.emits, List.forall_mem_singleton.mpr nofun⟩

/-- Any number of such forks. -/
lemma Handoff.Claimant.forkCycles {s : Handoff} {n : ℕ} (h : s.Claimant n) (k : ℕ) :
    ∃ acts s', run Handoff.step s acts = some s' ∧ s'.Claimant (n + k) := by
  induction k with
  | zero => exact ⟨[], s, rfl, h⟩
  | succ k ih =>
    obtain ⟨acts, t, hrun, ht⟩ := ih
    obtain ⟨s', hrun', hs'⟩ := ht.forkCycle
    refine ⟨acts ++ Anticheat.forkCycle, s', ?_, hs'⟩
    rw [run_append, hrun]
    exact hrun'

/-- With the tag of the claimed request come round again, the return handler posts into the request
that now has it. -/
lemma Handoff.Claimant.loses {s : Handoff} (h : s.Claimant (2 ^ 32)) :
    ∃ acts₁ t acts₂ s', run Handoff.step s acts₁ = some t ∧
      t.Loses (0, 0) claimantClaim 11 claimantRet acts₂ s' ∧
      (2 ^ 32 + 1, 11) ∈ s'.hist.passed := by
  obtain ⟨reqs, pending, seq, execs, clones, pins, registered, dropNext, emits, taken, dropped,
    owner, serial, hist⟩ := s
  obtain rfl : reqs = fun _ => none := h.reqs
  obtain rfl : pending = [] := h.pending
  obtain rfl : clones = fun _ => none := h.clones
  obtain rfl : seq = 0 := h.seq
  obtain rfl : serial = 2 ^ 32 := h.serial
  -- bring what the return handler reads into a form that computes
  obtain ⟨registered, rfl⟩ : ∃ f, registered = Function.update f 0 true :=
    ⟨registered, by rw [← h.registered]; exact (Function.update_eq_self ..).symm⟩
  obtain ⟨execs, rfl⟩ : ∃ f, execs = Function.update f (0, 0) (some (.claimed claimantClaim)) :=
    ⟨execs, by rw [← h.exec]; exact (Function.update_eq_self ..).symm⟩
  refine ⟨[.cloneGet 0 30 5 300 "late", .cloneSchedule 0 50 "game" false (some 0)], _,
    [.work 0 .start, .work 0 (.added 0), .work 0 .unlink, .work 0 (.added 0), .work 0 .finish], _,
    rfl, ⟨rfl, ⟨0, 100, "child", false, none, rfl⟩, rfl, ?_, ?_, ?_, ?_, ?_, ?_⟩, ?_⟩
  · intro a
    cases a <;> rfl
  · intro y i hi
    by_cases hy : y = (0, 0)
    · subst hy
      cases hi
    · exact h.idle y i (((Function.update_of_ne hy _ _).symm.trans hi))
  · show (1, 11) ∉ (hist.passed ++ [(2 ^ 32 + 1, 30)]) ++ [(2 ^ 32 + 1, 11)]
    simpa using h.passed
  · exact .inl (by simp)
  · show (1, 11) ∉ hist.superseded
    rw [show hist.superseded = [] from h.superseded]
    exact List.not_mem_nil
  · refine List.forall_mem_append.mpr ⟨?_, List.forall_mem_singleton.mpr nofun⟩
    exact List.forall_mem_append.mpr ⟨h.emits, List.forall_mem_singleton.mpr nofun⟩
  · exact List.mem_append_right _ (List.mem_singleton.mpr rfl)

lemma claimantEnd_claimant : claimantEnd.Claimant 1 where
  reqs := by
    funext a
    cases a <;> rfl
  pending := by decide +kernel
  clones := by
    funext y
    by_cases hy : y = 0
    · subst hy
      rfl
    · exact (Function.update_of_ne hy _ _).trans (Function.update_of_ne hy _ _)
  seq := by decide +kernel
  serial := by decide +kernel
  registered := by decide +kernel
  exec := replacedEnd_spec.1
  idle y i hi := by
    have hall : ∀ y, (claimantEnd.execs y).all (fun i => !i.inHandler) = true := by
      decide +kernel
    simpa [hi] using hall y
  superseded := by decide +kernel
  passed := by decide +kernel
  emits := by decide +kernel

/-- Two ways in which an image meets none of the ends that the claimed request and the fresh one
provide: a later exec hands its own image to the fresh request, or the tag of the claimed request
has come round again and the image is posted into a request of somebody else. -/
theorem handoff_replaced_and_misdelivered :
    (∃ acts₁ s x c m ret acts₂ s', run Handoff.step Handoff.init acts₁ = some s ∧
      s.Loses x c m ret acts₂ s' ∧ ∃ q m', (q, m, m') ∈ s'.hist.replaced) ∧
    ∃ acts₁ s x c m ret acts₂ s', run Handoff.step Handoff.init acts₁ = some s ∧
      s.Loses x c m ret acts₂ s' ∧ ∃ q, c.serial < q ∧ (q, m) ∈ s'.hist.passed := by
  have hrun := run_of_run_restrict (Option.some_get claimantRun_runs).symm
  constructor
  · exact ⟨claimantRun, claimantEnd, _, _, 11, _, _, _, hrun, claimantEnd_loses, 2, 12,
      by decide +kernel⟩
  · obtain ⟨acts, s, hcycles, hs⟩ := claimantEnd_claimant.forkCycles (2 ^ 32 - 1)
    obtain ⟨acts₁, t, acts₂, s', hlate, hloses, hpassed⟩ :=
      Handoff.Claimant.loses (s := s) (by simpa using hs)
    refine ⟨claimantRun ++ (acts ++ acts₁), t, _, _, 11, _, acts₂, s', ?_, hloses, 2 ^ 32 + 1,
      by decide, hpassed⟩
    rw [run_append, hrun]
    show run Handoff.step claimantEnd (acts ++ acts₁) = some t
    rw [run_append, hcycles]
    exact hlate

end Anticheat
