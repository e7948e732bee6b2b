import Anticheat.Handoff.Basic

/-!
# What a step of the handlers and the worker can do

`Handoff.step` inverted into rules, one for each branch of the code, as for the registry.
-/

namespace Anticheat

namespace Handoff

/-! ### The worker -/

/-- The branches of `ac_prot_add_worker` for the request `r` at `a`. -/
inductive WorkRule (s : Handoff) (a : ℕ) (r : AcProtAddReq) : WorkAct → Handoff → Prop where
  | wait (hpc : r.pc = .queued) (hold : r.oldMm = none) (hclaimed : r.claimed = true) :
      WorkRule s a r .start (s.setReq a (some { r with pc := .waiting }))
  | addMm (hpc : r.pc = .queued) (hfree : r.oldMm = none → r.claimed = false) :
      WorkRule s a r .start ((s.setReq a (some { r with pc := .addMm })).pass r.serial r.mm.mm)
  | wake (timedOut : Bool) (hpc : r.pc = .waiting)
      (hdone : timedOut = true ∨ r.handoffDone = true) :
      WorkRule s a r (.wake timedOut) ((s.unlink a).setReq a (some r.consume))
  | adopt (p : Ref) (hpc : r.pc = .consumed (some p)) :
      WorkRule s a r .adopt (s.workAdopt a r (some p))
  | lost (hpc : r.pc = .consumed none) : WorkRule s a r .adopt (s.workAdopt a r none)
  | addedPost (ret : ℤ) (hpc : r.pc = .addPost) :
      WorkRule s a r (.added ret)
        ((s.setReq a (some { r with pc := .putMm })).emit (r.transferEvent ret))
  | addedLost (ret : ℤ) (hpc : r.pc = .addLost) :
      WorkRule s a r (.added ret)
        ((s.setReq a (some { r with pc := .putMm })).emit (r.lostEvent ret))
  | addedMm (ret : ℤ) (hpc : r.pc = .addMm) :
      WorkRule s a r (.added ret) (s.setReq a (some { r with pc := .added ret }))
  | addedLate (ret ret₁ : ℤ) (post : Ref) (pid : ℤ) (comm : String)
      (hpc : r.pc = .addLate ret₁ post pid comm) :
      WorkRule s a r (.added ret)
        ((((s.setReq a (some { r with pc := .putMm })).emit (r.lateEvent pid comm ret)).put
          post).emit (r.inheritEvent ret₁))
  | unlinkNone (ret : ℤ) (hpc : r.pc = .added ret) (hold : r.oldMm = none)
      (hpost : r.postMm = none) :
      WorkRule s a r .unlink
        (((s.unlink a).setReq a (some { r with pc := .putMm })).emit (r.inheritEvent ret))
  | unlinkSame (ret : ℤ) (p : Ref) (hpc : r.pc = .added ret) (hold : r.oldMm = none)
      (hpost : r.postMm = some p) (hmm : p.mm = r.mm.mm) :
      WorkRule s a r .unlink
        ((((s.unlink a).setReq a (some { r with postMm := none, pc := .putMm })).put p).emit
          (r.inheritEvent ret))
  | unlinkLate (ret : ℤ) (p : Ref) (hpc : r.pc = .added ret) (hold : r.oldMm = none)
      (hpost : r.postMm = some p) (hmm : p.mm ≠ r.mm.mm) :
      WorkRule s a r .unlink
        (((s.unlink a).setReq a
          (some { r with postMm := none, pc := .addLate ret p r.postPid r.postComm })).pass
            r.serial p.mm)
  | keep (old : Ref) (hpc : r.pc = .added 0) (hold : r.oldMm = some old) :
      WorkRule s a r (.users true)
        ((s.setReq a (some { r with pc := .putOld })).emit r.keptEvent)
  | delete (old : Ref) (hpc : r.pc = .added 0) (hold : r.oldMm = some old) :
      WorkRule s a r (.users false) (s.setReq a (some { r with pc := .delOld }))
  | rekeyFail (ret : ℤ) (old : Ref) (shared : Bool) (hpc : r.pc = .added ret)
      (hold : r.oldMm = some old) (hret : ret ≠ 0) :
      WorkRule s a r (.users shared)
        ((s.setReq a (some { r with pc := .putOld })).emit (r.rekeyFailedEvent ret))
  | deleted (hpc : r.pc = .delOld) :
      WorkRule s a r .deleted ((s.setReq a (some { r with pc := .putOld })).emit r.rekeyEvent)
  | putOld (hpc : r.pc = .putOld) :
      WorkRule s a r .putOld ((s.setReq a (some { r with pc := .putMm })).putOpt r.oldMm)
  | finish (hpc : r.pc = .putMm) : WorkRule s a r .finish ((s.setReq a none).put r.mm)

variable {s s' : Handoff}

/-! ### Queueing -/

lemma enqueue_of_fork {a : ℕ} {r : AcProtAddReq} (hold : r.oldMm = none) :
    s.enqueue a r =
      { s.setReq a (some { r with reqId := s.seq + 1, serial := s.serial + 1 }) with
        pending := a :: s.pending
        seq := s.seq + 1
        serial := s.serial + 1 } := by
  cases r
  cases hold
  rfl

lemma enqueue_of_rekey {a : ℕ} {r : AcProtAddReq} {old : Ref} (hold : r.oldMm = some old) :
    s.enqueue a r = s.setReq a (some r) := by
  cases r
  cases hold
  rfl

/-! ### Inversion -/

lemma workRule_start (s : Handoff) {a : ℕ} {r : AcProtAddReq} (hpc : r.pc = .queued) :
    WorkRule s a r .start (s.workStart a r) := by
  unfold workStart
  split_ifs with h
  · rw [Bool.and_eq_true, Option.isNone_iff_eq_none] at h
    exact .wait hpc h.1 h.2
  · refine .addMm hpc fun hold => ?_
    rw [hold] at h
    simpa using h

lemma workRule_unlink (s : Handoff) {a : ℕ} {r : AcProtAddReq} {ret : ℤ}
    (hpc : r.pc = .added ret) (hold : r.oldMm = none) :
    WorkRule s a r .unlink (s.workUnlink a r ret) := by
  unfold workUnlink
  split
  · next hpost => exact .unlinkNone ret hpc hold hpost
  · next p hpost =>
    split_ifs with hmm
    · exact .unlinkSame ret p hpc hold hpost hmm
    · exact .unlinkLate ret p hpc hold hpost hmm

lemma workRule_users (s : Handoff) {a : ℕ} {r : AcProtAddReq} {ret : ℤ} {old : Ref}
    (shared : Bool) (hpc : r.pc = .added ret) (hold : r.oldMm = some old) :
    WorkRule s a r (.users shared) (s.workUsers a r ret shared) := by
  unfold workUsers
  by_cases hret : ret = 0
  · subst hret
    cases shared with
    | true => simpa using WorkRule.keep (s := s) (a := a) old hpc hold
    | false => simpa using WorkRule.delete (s := s) (a := a) old hpc hold
  · simpa [hret] using WorkRule.rekeyFail (s := s) (a := a) ret old shared hpc hold hret

lemma workRule_of_work {a : ℕ} {r : AcProtAddReq} {w : WorkAct} (h : s.work a r w = some s') :
    WorkRule s a r w s' := by
  unfold work at h
  split at h
  · next hpc =>
    cases h
    exact workRule_start s hpc
  · next timedOut hpc =>
    split_ifs at h with hdone
    cases h
    exact .wake timedOut hpc (by simpa using hdone)
  · next post hpc =>
    cases h
    cases post with
    | none => exact .lost hpc
    | some p => exact .adopt p hpc
  · next ret hpc =>
    cases h
    exact .addedPost ret hpc
  · next ret hpc =>
    cases h
    exact .addedLost ret hpc
  · next ret hpc =>
    cases h
    exact .addedMm ret hpc
  · next ret ret₁ post pid comm hpc =>
    cases h
    exact .addedLate ret ret₁ post pid comm hpc
  · next ret hpc =>
    split_ifs at h with hold
    cases h
    exact workRule_unlink s hpc (Option.isNone_iff_eq_none.mp hold)
  · next shared ret hpc =>
    split_ifs at h with hold
    cases h
    obtain ⟨old, hold⟩ := Option.isSome_iff_exists.mp hold
    exact workRule_users s shared hpc hold
  · next hpc =>
    cases h
    exact .deleted hpc
  · next hpc =>
    cases h
    exact .putOld hpc
  · next hpc =>
    cases h
    exact .finish hpc
  · cases h

/-! ### The handlers -/

/-- The branches of the handlers, and those of the worker. -/
inductive Rule (s : Handoff) : HandoffAct → Handoff → Prop where
  | pin (x : InstId) (m : ℕ) (pid : ℤ) (comm : String) (i : PinSlot)
      (hreg : s.registered x.1 = true) (hx : s.execs x = none) (hi : s.pinTrack = some i) :
      s.Rule (.entryPin x m pid comm)
        { (((s.get m).setExec x (some (.pinned (s.nextRef m) (some i)))).emit
            (execInvokedEvent pid comm)).setPin i (some (s.nextRef m)) with
          owner := Function.update s.owner i x }
  | pinUntracked (x : InstId) (m : ℕ) (pid : ℤ) (comm : String) (hreg : s.registered x.1 = true)
      (hx : s.execs x = none) (hi : s.pinTrack = none) :
      s.Rule (.entryPin x m pid comm)
        (((s.get m).setExec x (some (.pinned (s.nextRef m) none))).emit
          (execInvokedEvent pid comm))
  | miss (x : InstId) (hreg : s.registered x.1 = true) (hx : s.execs x = none) :
      s.Rule (.entryMiss x) (s.setExec x (some .scanning))
  | scanPlain (x : InstId) (m : ℕ) (tgid : ℤ) (hx : s.execs x = some .scanning)
      (hnone : s.findClaimable m tgid = none) :
      s.Rule (.entryScan x m tgid) (s.setExec x (some .plain))
  | scanClaim (x : InstId) (m : ℕ) (tgid : ℤ) (a : ℕ) (r : AcProtAddReq)
      (hx : s.execs x = some .scanning) (ha : a ∈ s.pending) (hr : s.reqs a = some r)
      (hclaim : r.claimable m tgid = true) :
      s.Rule (.entryScan x m tgid)
        ((s.setReq a (some { r with claimed := true })).setExec x
          (some (.claimed ⟨a, r.reqId, r.jitAllowed, r.srcPid, r.srcComm, r.serial⟩)))
  | retPlain (x : InstId) (rc : ℤ) (m : Option ℕ) (pid : ℤ) (comm : String) (jit : Bool)
      (addr : Option ℕ) (hreg : s.registered x.1 = true) (hx : s.execs x = some .plain) :
      s.Rule (.execRet x rc m pid comm jit addr) (s.setExec x none)
  | retPost (x : InstId) (rc : ℤ) (m : ℕ) (pid : ℤ) (comm : String) (jit : Bool)
      (addr : Option ℕ) (c : ExecClaim) (r : AcProtAddReq) (hreg : s.registered x.1 = true)
      (hx : s.execs x = some (.claimed c)) (ha : c.pendingReq ∈ s.pending)
      (hr : s.reqs c.pendingReq = some r) (hid : r.reqId = c.pendingId) :
      s.Rule (.execRet x rc (some m) pid comm jit addr)
        ((s.postMm c.pendingReq r m pid comm).setExec x none)
  | retGone (x : InstId) (rc : ℤ) (m : ℕ) (pid : ℤ) (comm : String) (jit : Bool)
      (addr : Option ℕ) (c : ExecClaim) (hreg : s.registered x.1 = true)
      (hx : s.execs x = some (.claimed c)) :
      s.Rule (.execRet x rc (some m) pid comm jit addr)
        ((s.get m).setExec x (some (.requeue c (s.nextRef m) pid comm)))
  | retWake (x : InstId) (rc : ℤ) (pid : ℤ) (comm : String) (jit : Bool) (addr : Option ℕ)
      (c : ExecClaim) (r : AcProtAddReq) (hreg : s.registered x.1 = true)
      (hx : s.execs x = some (.claimed c)) (ha : c.pendingReq ∈ s.pending)
      (hr : s.reqs c.pendingReq = some r) :
      s.Rule (.execRet x rc none pid comm jit addr)
        ((s.setReq c.pendingReq (some { r with handoffDone := true })).setExec x none)
  | retExiting (x : InstId) (rc : ℤ) (pid : ℤ) (comm : String) (jit : Bool) (addr : Option ℕ)
      (c : ExecClaim) (hreg : s.registered x.1 = true) (hx : s.execs x = some (.claimed c)) :
      s.Rule (.execRet x rc none pid comm jit addr) (s.setExec x none)
  | requeue (x : InstId) (c : ExecClaim) (mm : Ref) (pid : ℤ) (comm : String) (a : ℕ)
      (hx : s.execs x = some (.requeue c mm pid comm)) (ha : s.reqs a = none) :
      s.Rule (.requeue x (some a))
        ((s.setExec x none).enqueue a
          (.make mm none pid comm c.parentPid c.parentComm c.jitAllowed))
  | requeueDropped (x : InstId) (c : ExecClaim) (mm : Ref) (pid : ℤ) (comm : String)
      (hx : s.execs x = some (.requeue c mm pid comm)) :
      s.Rule (.requeue x none)
        (((s.setExec x none).put mm).emit (handoffDroppedEvent pid comm c))
  | rekeyFailed (x : InstId) (rc : ℤ) (m : Option ℕ) (pid : ℤ) (comm : String) (jit : Bool)
      (addr : Option ℕ) (old : Ref) (slot : Option PinSlot) (hreg : s.registered x.1 = true)
      (hx : s.execs x = some (.pinned old slot)) (hfail : rc = 0 → m = none) :
      s.Rule (.execRet x rc m pid comm jit addr)
        (((s.pinUntrack slot).setExec x none).put old)
  | rekeySame (x : InstId) (pid : ℤ) (comm : String) (jit : Bool) (addr : Option ℕ) (old : Ref)
      (slot : Option PinSlot) (hreg : s.registered x.1 = true)
      (hx : s.execs x = some (.pinned old slot)) :
      s.Rule (.execRet x 0 (some old.mm) pid comm jit addr)
        (((((s.pinUntrack slot).setExec x none).get old.mm).put old).put (s.nextRef old.mm))
  | rekey (x : InstId) (m : ℕ) (pid : ℤ) (comm : String) (jit : Bool) (a : ℕ) (old : Ref)
      (slot : Option PinSlot) (hreg : s.registered x.1 = true)
      (hx : s.execs x = some (.pinned old slot)) (hm : m ≠ old.mm) (ha : s.reqs a = none) :
      s.Rule (.execRet x 0 (some m) pid comm jit (some a))
        ((((s.pinUntrack slot).setExec x none).get m).enqueue a
          (.make (s.nextRef m) (some old) pid comm pid comm jit))
  | rekeyDropped (x : InstId) (m : ℕ) (pid : ℤ) (comm : String) (jit : Bool) (old : Ref)
      (slot : Option PinSlot) (hreg : s.registered x.1 = true)
      (hx : s.execs x = some (.pinned old slot)) (hm : m ≠ old.mm) :
      s.Rule (.execRet x 0 (some m) pid comm jit none)
        ((((((s.pinUntrack slot).setExec x none).get m).put (s.nextRef m)).put old).emit
          (rekeyDroppedEvent pid comm))
  | discard (x : InstId) (i : ExecInst) (hreg : s.registered x.1 = false)
      (hx : s.execs x = some i) (hi : i.inHandler = false) :
      s.Rule (.discard x) (s.setExec x none)
  | unregister (k : ExecProbe) :
      s.Rule (.unregister k) { s with registered := Function.update s.registered k false }
  | dropPin (i : PinSlot) (hi : s.dropNext = i) (hreg : ∀ k, s.registered k = false)
      (hidle : ∀ x j, s.execs x = some j → j.inHandler = false) :
      s.Rule .dropPin (s.dropPin i)
  | cloneSame (y : CloneId) (m : ℕ) (cpid : ℤ) (ccomm : String) (hy : s.clones y = none) :
      s.Rule (.cloneGet y m m cpid ccomm) ((s.get m).put (s.nextRef m))
  | cloneGet (y : CloneId) (m cur : ℕ) (cpid : ℤ) (ccomm : String) (hy : s.clones y = none)
      (hm : m ≠ cur) :
      s.Rule (.cloneGet y m cur cpid ccomm)
        ((s.get m).setClone y (some ⟨s.nextRef m, cpid, ccomm⟩))
  | cloneSchedule (y : CloneId) (c : CloneInst) (ppid : ℤ) (pcomm : String) (jit : Bool) (a : ℕ)
      (hy : s.clones y = some c) (ha : s.reqs a = none) :
      s.Rule (.cloneSchedule y ppid pcomm jit (some a))
        ((s.setClone y none).enqueue a (.make c.childMm none c.cpid c.ccomm ppid pcomm jit))
  | cloneDropped (y : CloneId) (c : CloneInst) (ppid : ℤ) (pcomm : String) (jit : Bool)
      (hy : s.clones y = some c) :
      s.Rule (.cloneSchedule y ppid pcomm jit none)
        (((s.setClone y none).put c.childMm).emit
          (cloneDroppedEvent c.cpid c.ccomm ppid pcomm))
  | work (a : ℕ) (r : AcProtAddReq) (w : WorkAct) (s' : Handoff) (hr : s.reqs a = some r)
      (hw : WorkRule s a r w s') : s.Rule (.work a w) s'

lemma findClaimable_eq_some {m : ℕ} {tgid : ℤ} {a : ℕ} {r : AcProtAddReq}
    (h : s.findClaimable m tgid = some (a, r)) :
    a ∈ s.pending ∧ s.reqs a = some r ∧ r.claimable m tgid = true := by
  obtain ⟨b, hb, h⟩ := List.exists_of_findSome?_eq_some h
  obtain ⟨q, hq, h⟩ := Option.bind_eq_some_iff.mp h
  split_ifs at h with hclaim
  cases h
  exact ⟨hb, hq, hclaim⟩

lemma findClaimed_eq_some {c : ExecClaim} {r : AcProtAddReq} (h : s.findClaimed c = some r) :
    c.pendingReq ∈ s.pending ∧ s.reqs c.pendingReq = some r ∧ r.reqId = c.pendingId := by
  unfold findClaimed at h
  split_ifs at h with hmem
  obtain ⟨hr, hid⟩ := Option.filter_eq_some_iff.mp h
  exact ⟨hmem, hr, by simpa using hid⟩

lemma rule_execPin {x : InstId} (m : ℕ) (pid : ℤ) (comm : String)
    (hreg : s.registered x.1 = true) (hx : s.execs x = none) :
    s.Rule (.entryPin x m pid comm) (s.execPin x m pid comm) := by
  unfold execPin
  cases hi : s.pinTrack with
  | none => exact .pinUntracked x m pid comm hreg hx hi
  | some i => exact .pin x m pid comm i hreg hx hi

lemma rule_execScan {x : InstId} (m : ℕ) (tgid : ℤ) (hx : s.execs x = some .scanning) :
    s.Rule (.entryScan x m tgid) (s.execScan x m tgid) := by
  unfold execScan
  split
  · next hnone => exact .scanPlain x m tgid hx hnone
  · next a r hfound =>
    obtain ⟨ha, hr, hclaim⟩ := findClaimable_eq_some hfound
    exact .scanClaim x m tgid a r hx ha hr hclaim

lemma rule_execHandoff {x : InstId} {c : ExecClaim} (rc : ℤ) (m : Option ℕ) (pid : ℤ)
    (comm : String) (jit : Bool) (addr : Option ℕ) (hreg : s.registered x.1 = true)
    (hx : s.execs x = some (.claimed c)) :
    s.Rule (.execRet x rc m pid comm jit addr) (s.execHandoff x c m pid comm) := by
  unfold execHandoff
  split
  · next m r hfound =>
    obtain ⟨ha, hr, hid⟩ := findClaimed_eq_some hfound
    exact .retPost x rc m pid comm jit addr c r hreg hx ha hr hid
  · next m _ => exact .retGone x rc m pid comm jit addr c hreg hx
  · next r hfound =>
    obtain ⟨ha, hr, -⟩ := findClaimed_eq_some hfound
    exact .retWake x rc pid comm jit addr c r hreg hx ha hr
  · exact .retExiting x rc pid comm jit addr c hreg hx

lemma rule_execRekey {x : InstId} {old : Ref} {slot : Option PinSlot} {rc : ℤ} {m : Option ℕ}
    {pid : ℤ} {comm : String} {jit : Bool} {addr : Option ℕ} (hreg : s.registered x.1 = true)
    (hx : s.execs x = some (.pinned old slot))
    (h : s.execRekey x old slot rc m pid comm jit addr = some s') :
    s.Rule (.execRet x rc m pid comm jit addr) s' := by
  simp only [execRekey] at h
  by_cases hrc : rc = 0
  · subst hrc
    rw [if_neg (not_not.mpr rfl)] at h
    cases m with
    | none =>
      cases h
      exact .rekeyFailed x 0 none pid comm jit addr old slot hreg hx fun _ => rfl
    | some m =>
      by_cases hm : m = old.mm
      · subst hm
        simp only [if_true] at h
        cases h
        exact .rekeySame x pid comm jit addr old slot hreg hx
      · simp only [if_neg hm] at h
        cases addr with
        | none =>
          cases h
          exact .rekeyDropped x m pid comm jit old slot hreg hx hm
        | some a =>
          simp only [schedule] at h
          split_ifs at h with ha
          cases h
          exact .rekey x m pid comm jit a old slot hreg hx hm (Option.isNone_iff_eq_none.mp ha)
  · rw [if_pos hrc] at h
    cases h
    exact .rekeyFailed x rc m pid comm jit addr old slot hreg hx fun h => absurd h hrc

/-- Every step is an instance of a rule. -/
theorem rule_of_step {a : HandoffAct} (h : s.step a = some s') : s.Rule a s' := by
  cases a with
  | entryPin x m pid comm =>
    simp only [step] at h
    split_ifs at h with hx
    cases h
    rw [Bool.and_eq_true, Option.isNone_iff_eq_none] at hx
    exact rule_execPin m pid comm hx.1 hx.2
  | entryMiss x =>
    simp only [step] at h
    split_ifs at h with hx
    cases h
    rw [Bool.and_eq_true, Option.isNone_iff_eq_none] at hx
    exact .miss x hx.1 hx.2
  | entryScan x m tgid =>
    simp only [step] at h
    split at h <;> cases h
    next hx => exact rule_execScan m tgid hx
  | execRet x rc m pid comm jit addr =>
    simp only [step] at h
    split at h
    · next hreg hx =>
      cases h
      exact .retPlain x rc m pid comm jit addr hreg hx
    · next c hreg hx =>
      cases h
      exact rule_execHandoff rc m pid comm jit addr hreg hx
    · next old slot hreg hx => exact rule_execRekey hreg hx h
    · cases h
  | requeue x addr =>
    simp only [step] at h
    split at h <;> try cases h
    next c mm pid comm hx =>
    cases addr with
    | none =>
      cases h
      exact .requeueDropped x c mm pid comm hx
    | some a =>
      simp only [execRequeue, schedule] at h
      split_ifs at h with ha
      cases h
      exact .requeue x c mm pid comm a hx (Option.isNone_iff_eq_none.mp ha)
  | discard x =>
    simp only [step] at h
    split_ifs at h with hreg
    split at h <;> try cases h
    next i hx =>
    split_ifs at h with hi
    cases h
    exact .discard x i (Bool.eq_false_of_not_eq_true hreg) hx (Bool.eq_false_of_not_eq_true hi)
  | unregister k =>
    cases h
    exact .unregister k
  | dropPin =>
    simp only [step] at h
    split_ifs at h with hlt hgone
    cases h
    rw [probesGone, Bool.and_eq_true, decide_eq_true_eq, decide_eq_true_eq] at hgone
    refine .dropPin ⟨s.dropNext, hlt⟩ rfl hgone.1 fun x j hj => ?_
    have := hgone.2 x
    simpa [hj] using this
  | cloneGet y m cur cpid ccomm =>
    simp only [step] at h
    split_ifs at h with hy
    cases h
    rw [Option.isNone_iff_eq_none] at hy
    unfold Handoff.cloneGet
    split_ifs with hm
    · subst hm
      exact .cloneSame y m cpid ccomm hy
    · exact .cloneGet y m cur cpid ccomm hy hm
  | cloneSchedule y ppid pcomm jit addr =>
    obtain ⟨c, hy, h⟩ := Option.bind_eq_some_iff.mp h
    cases addr with
    | none =>
      cases h
      exact .cloneDropped y c ppid pcomm jit hy
    | some a =>
      simp only [Handoff.cloneSchedule, schedule] at h
      split_ifs at h with ha
      cases h
      exact .cloneSchedule y c ppid pcomm jit a hy (Option.isNone_iff_eq_none.mp ha)
  | work a w =>
    obtain ⟨r, hr, h⟩ := Option.bind_eq_some_iff.mp h
    exact .work a r w s' hr (workRule_of_work h)

end Handoff

end Anticheat
