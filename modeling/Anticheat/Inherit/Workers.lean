import Anticheat.Inherit.Owners
import Anticheat.Inherit.Sharing

/-!
# What the workers have done

`assumed` lists what is taken for granted of the kernel and of the user: nothing fails, no probe is
missed, no handoff times out, nobody calls `DEL_PROC`. Then a worker whose `ac_add_prot_mm` has
returned leaves an entry for its mm, published or claimed, for as long as the request holds its
reference; and the same is true of a parent that `ac_clone_ret` has found protected.
-/

namespace Anticheat

open Transition

/-! ### Requests across a step -/

/-- The worker is in a call of the registry. -/
def WorkPc.calling : WorkPc → Bool
  | .addPost => true
  | .addLost => true
  | .addMm => true
  | .addLate .. => true
  | .delOld => true
  | _ => false

/-- Nothing but the handoff has changed. -/
structure AcProtAddReq.Kept (r r' : AcProtAddReq) : Prop where
  pc : r'.pc = r.pc
  mm : r'.mm = r.mm
  oldMm : r'.oldMm = r.oldMm
  newPid : r'.newPid = r.newPid

lemma AcProtAddReq.Kept.refl (r : AcProtAddReq) : r.Kept r := ⟨rfl, rfl, rfl, rfl⟩

lemma AcProtAddReq.calling_of_call {r : AcProtAddReq} {act : RegAct ℕ} (h : r.call = some act) :
    r.pc.calling = true := by
  unfold call at h
  split at h
  all_goals first | (next hpc => rw [hpc]; rfl) | cases h

namespace Handoff

variable {s s' : Handoff} {act : HandoffAct}

/-- The handoff posted into the request at `b` by an exec that has claimed it. -/
def Posts (s : Handoff) (act : HandoffAct) (b : ℕ) (r r' : AcProtAddReq) : Prop :=
  ∃ x rc m pid comm jit addr c p, act = .execRet x rc (some m) pid comm jit addr ∧
    s.execs x = some (.claimed c) ∧ c.pendingReq = b ∧ r.IsLinked ∧ r.reqId = c.pendingId ∧
    r'.postMm = some p ∧ p.mm = m

/-- A handler leaves a request where it stands, and may post into one that is linked. -/
lemma kept_of_step (hlink : s.Linked) (hstep : s.step act = some s')
    (hact : act.isHandler = true) : ∀ b r, s.reqs b = some r → ∃ r', s'.reqs b = some r' ∧
      r.Kept r' ∧ (r'.postMm = r.postMm ∨ s.Posts act b r r') := by
  have hsame : ∀ b r, s.reqs b = some r →
      r.Kept r ∧ (r.postMm = r.postMm ∨ s.Posts act b r r) := fun b r _ => ⟨.refl r, .inl rfl⟩
  have hall : ∀ b r, s.reqs b = some r → ∃ r', s.reqs b = some r' ∧
      r.Kept r' ∧ (r'.postMm = r.postMm ∨ s.Posts act b r r') :=
    fun b r hr => ⟨r, hr, hsame b r hr⟩
  have hfree : ∀ {a : ℕ} {o : Option AcProtAddReq}, s.reqs a = none → ∀ b r, s.reqs b = some r →
      ∃ r', Function.update s.reqs a o b = some r' ∧
        r.Kept r' ∧ (r'.postMm = r.postMm ∨ s.Posts act b r r') := by
    intro a o ha
    refine PartialMap.exists_update (fun b r _ => hsame b r) fun r hr => ?_
    rw [ha] at hr
    cases hr
  cases rule_of_step hstep with
  | scanClaim x m tgid a r hx ha hr hclaim =>
    refine PartialMap.exists_update (fun b q _ => hsame b q) fun q hq => ?_
    cases hr.symm.trans hq
    exact ⟨_, rfl, ⟨rfl, rfl, rfl, rfl⟩, .inl rfl⟩
  | retPost x rc m pid comm jit addr c r hreg hx ha hr hid =>
    refine PartialMap.exists_update (fun b q _ => hsame b q) fun q hq => ?_
    obtain ⟨r', hr', hl⟩ := (hlink.mem_iff _).mp ha
    cases hr.symm.trans hq
    cases hr.symm.trans hr'
    exact ⟨_, rfl, ⟨rfl, rfl, rfl, rfl⟩,
      .inr ⟨x, rc, m, pid, comm, jit, addr, c, _, rfl, hx, rfl, hl, hid, rfl, rfl⟩⟩
  | retWake x rc pid comm jit addr c r hreg hx ha hr =>
    refine PartialMap.exists_update (fun b q _ => hsame b q) fun q hq => ?_
    cases hr.symm.trans hq
    exact ⟨_, rfl, ⟨rfl, rfl, rfl, rfl⟩, .inl rfl⟩
  | requeue x c mm pid comm a hx ha => exact hfree ha
  | rekey x m pid comm jit a old slot hreg hx hm ha => exact hfree ha
  | cloneSchedule y c ppid pcomm jit a hy ha => exact hfree ha
  | work a r w s' hr hw => cases hact
  | _ => exact hall

/-- A step of a worker changes its own request only. -/
lemma WorkRule.reqs_of_ne {a b : ℕ} {r : AcProtAddReq} {w : WorkAct} (hw : WorkRule s a r w s')
    (hne : b ≠ a) : s'.reqs b = s.reqs b := by
  cases hw <;> exact Function.update_of_ne hne _ _

/-- A new request has been queued, no more. -/
lemma queued_of_step (hstep : s.step act = some s') :
    ∀ b r, s'.reqs b = some r → s.reqs b = none → r.pc = .queued := by
  have hsame : ∀ b r, s.reqs b = some r → s.reqs b = none → r.pc = .queued :=
    fun b r hr hnone => absurd (hr.symm.trans hnone) nofun
  have hnew : ∀ {a : ℕ} {q : AcProtAddReq}, q.pc = .queued →
      ∀ b r, Function.update s.reqs a (some q) b = some r → s.reqs b = none → r.pc = .queued := by
    intro a q hq
    refine PartialMap.forall_update (fun b r _ => hsame b r) fun r hr _ => ?_
    cases hr
    exact hq
  have hold : ∀ {a : ℕ} {q : AcProtAddReq} {o : Option AcProtAddReq}, s.reqs a = some q →
      ∀ b r, Function.update s.reqs a o b = some r → s.reqs b = none → r.pc = .queued := by
    intro a q o ha
    exact PartialMap.forall_update (fun b r _ => hsame b r)
      fun r _ hnone => absurd (ha.symm.trans hnone) nofun
  cases rule_of_step hstep with
  | scanClaim x m tgid a r hx ha hr hclaim => exact hold hr
  | retPost x rc m pid comm jit addr c r hreg hx ha hr hid => exact hold hr
  | retWake x rc pid comm jit addr c r hreg hx ha hr => exact hold hr
  | requeue x c mm pid comm a hx ha => exact hnew rfl
  | rekey x m pid comm jit a old slot hreg hx hm ha => exact hnew rfl
  | cloneSchedule y c ppid pcomm jit a hy ha => exact hnew rfl
  | work a r w s' hr hw =>
    intro b q hq hnone
    have hne : b ≠ a := by
      rintro rfl
      exact absurd (hr.symm.trans hnone) nofun
    rw [hw.reqs_of_ne hne] at hq
    exact hsame b q hq hnone
  | _ => exact hsame

/-- A worker gets past `ac_add_prot_mm` of `r->mm` by its return. -/
lemma WorkRule.added {a : ℕ} {r r' : AcProtAddReq} {w : WorkAct} {ret : ℤ}
    (hw : WorkRule s a r w s') (hr' : s'.reqs a = some r') (hpc : r'.pc = .added ret) :
    r.pc = .addMm ∧ w = .added ret ∧ r'.mm = r.mm := by
  have hset : ∀ {o : Option AcProtAddReq}, Function.update s.reqs a o a = some r' → o = some r' :=
    fun h => by rwa [Function.update_self] at h
  cases hw with
  | addedMm ret' hmm =>
    cases hset hr'
    cases hpc
    exact ⟨hmm, rfl, rfl⟩
  | wake timedOut hwait hdone =>
    cases hset hr'
    rw [AcProtAddReq.consume_pc] at hpc
    cases hpc
  | finish hput => cases hset hr'
  | _ =>
    cases hset hr'
    cases hpc

end Handoff

namespace Inherit

/-! ### What is taken for granted -/

/-- An entry of the mm is claimed and not published. -/
def claims (s : Inherit) (m : ℕ) : Bool :=
  (List.finRange acProtMax).any fun i =>
    (s.reg.prots i).mm == .reserved && (s.reg.prots i).claiming == some m

/-- A step of a task without allocation failure, missed probe or full registry, and not a fork or
an exec that comes while `ac_add_prot_mm` of its mm is between claiming a slot and publishing. -/
def taskAssumed (s : Inherit) (th : Thread) : TaskAct → Bool
  | .fork _ _ probed => probed && !s.claims th.mm
  | .cloneCheck => !s.claims th.mm
  | .cloneSchedule addr => addr.isSome
  | .execEntry x => x.isSome && !s.claims th.mm
  | .execScan => !s.claims th.mm
  | .execRet _ addr => addr.isSome
  | .execRequeue addr => addr.isSome
  | .addProc _ => s.reg.hasRoom th.mm
  | _ => true

/-- A step that nothing fails in, with no handoff timeout and no `DEL_PROC`. -/
def assumed (s : Inherit) : InheritAct → Bool
  | .task t act => (s.tasks t).all fun th => s.taskAssumed th act
  | .delProc _ => false
  | .reg act => act.registers
  | .work _ (.wake timedOut) => !timedOut
  | .workCall b =>
    match (s.h.reqs b).bind AcProtAddReq.call with
    | some (.addEnter m _ _ _) => s.reg.hasRoom m
    | _ => true
  | _ => true

variable {s s' : Inherit} {a : InheritAct} {m : ℕ}

lemma ne_delProc_of_assumed (ha : s.assumed a = true) : a ≠ .delProc m := by
  rintro rfl
  cases ha

lemma RegPart.registers_of_assumed {act : RegAct ℕ} (hp : s.RegPart s' a act)
    (ha : s.assumed a = true) : act.registers = true := by
  by_contra hreg
  have hfalse := Bool.eq_false_of_not_eq_true hreg
  cases hp.registers hfalse
  exact hreg ha

/-! ### Address spaces in use -/

/-- No entry of an mm goes away while a task runs in it or a worker is to register it. -/
lemma RegPart.unprotects_of_assumed {act : RegAct ℕ} (hp : s.RegPart s' a act)
    (ha : s.assumed a = true) (hm : s.TaskIn m ∨ ∃ b r, s.h.reqs b = some r ∧ r.mm.mm = m) :
    act.unprotects m = false := by
  by_contra hun
  rcases hp.unprotects m (Bool.eq_true_of_not_eq_false hun) with hdel | ⟨-, htask, hholds⟩ |
    ⟨-, b, htask, honly⟩
  · exact ne_delProc_of_assumed ha hdel
  · rcases hm with hm | ⟨b, r, hr, hm⟩
    · exact htask hm
    · exact hholds ⟨.req b .mm, r.mm, Handoff.RefsOk.held_of_reqs hr .mm, hm⟩
  · rcases hm with hm | ⟨b', r, hr, hm⟩
    · exact htask hm
    · exact absurd (honly (.req b' .mm) r.mm (Handoff.RefsOk.held_of_reqs hr .mm) hm) nofun

/-- What the module holds after a step it held before, or a task ran there. -/
lemma Inv.holds_of_step (h : s.Inv) (hstep : s.step a = some s') (hm : s'.Holds m) :
    s.TaskIn m ∨ s.Holds m := by
  obtain ⟨p, t, hp, rfl⟩ := hm
  rcases h_of_step hstep with hh | ⟨act, hh, hcur⟩
  · exact .inr ⟨p, t, hh ▸ hp, rfl⟩
  · rcases h.h.held_of_step hh hp with ⟨q, u, hq, -, hmm⟩ | hact
    · exact .inr ⟨q, u, hq, hmm⟩
    · exact .inl (hcur.taskIn hact)

/-! ### What has been registered -/

/-- The worker has passed `r->mm` to `ac_add_prot_mm` and has not unlinked the request. -/
def Passed (s : Inherit) (b : ℕ) (r : AcProtAddReq) : Prop :=
  (∃ ret, r.pc = .added ret) ∨ (r.pc = .addMm ∧ s.call b ≠ none)

structure WorkersOk (s : Inherit) : Prop where
  guarded : ∀ m, s.Guarded m
  live : ∀ m, s.Holds m → s.reg.NotExiting m
  noneFailed : s.reg.NoneFailed
  calls : ∀ b c, s.call b = some c → ∃ r, s.h.reqs b = some r ∧ r.pc.calling = true
  passed : ∀ b r, s.h.reqs b = some r → s.Passed b r → s.reg.Covers r.mm.mm
  checked : ∀ t th, s.tasks t = some th → th.sys.isChecked = true → s.reg.Covers th.mm

namespace WorkersOk

lemma init : Inherit.init.WorkersOk where
  guarded _ := .init
  live _ := fun ⟨p, t, hp, _⟩ => by cases p <;> cases hp
  noneFailed := .init
  calls _ _ h := nomatch h
  passed _ _ h := nomatch h
  checked t th ht hc := by
    simp only [Inherit.init] at ht
    split_ifs at ht
    cases ht
    cases hc

lemma notExiting (hs : s.WorkersOk) (hm : s.TaskIn m ∨ s.Holds m) : s.reg.NotExiting m :=
  hm.elim (fun hm => (hs.guarded m hm).notExiting) (hs.live m)

/-- An mm that is protected and in use has an entry that nobody removes. -/
lemma covers_of_protects (hs : s.WorkersOk) (hm : s.TaskIn m) (hprot : s.protects m = true) :
    s.reg.Covers m := by
  rw [protects, acIsProtectedMm_some] at hprot
  obtain ⟨i, hi⟩ := hprot
  exact ⟨i, .inl (hs.guarded m hm i hi)⟩

lemma covers_step (hs : s.WorkersOk) (h : s.Inv) (ha : s.assumed a = true)
    (hstep : s.step a = some s')
    (hm : s.TaskIn m ∨ ∃ b r, s.h.reqs b = some r ∧ r.mm.mm = m) (hc : s.reg.Covers m) :
    s'.reg.Covers m := by
  obtain ⟨owner, howned⟩ := h.reg.owned
  rcases h.reg_of_step hstep with hreg | ⟨act, hpart⟩
  · rw [hreg]
    exact hc
  · exact hc.step howned hs.noneFailed (hpart.unprotects_of_assumed ha hm) hpart.step

/-- The worker's call of `ac_add_prot_mm`. -/
lemma covers_workCall (hs : s.WorkersOk) {b : ℕ} {r : AcProtAddReq} {reg' : Registry ℕ} {pid : ℤ}
    {comm : String} {jit : Bool} (ha : s.assumed (.workCall b) = true) (hr : s.h.reqs b = some r)
    (hcall : r.call = some (.addEnter m pid comm jit)) (hm : s.Holds m)
    (hreg : s.reg.step (.addEnter m pid comm jit) = some reg') : reg'.Covers m := by
  refine (hs.live m hm).covers_addEnter ?_ hreg
  simpa [assumed, hr, hcall] using ha

lemma live_step (hs : s.WorkersOk) (h : s.Inv) (ha : s.assumed a = true)
    (hstep : s.step a = some s') (hm : s'.Holds m) : s'.reg.NotExiting m := by
  obtain ⟨owner, howned⟩ := h.reg.owned
  have hm := h.holds_of_step hstep hm
  rcases h.reg_of_step hstep with hreg | ⟨act, hpart⟩
  · rw [hreg]
    exact hs.notExiting hm
  · exact (hs.notExiting hm).step howned (hpart.ne_exit hm (ne_delProc_of_assumed ha)) hpart.step

lemma noneFailed_step (hs : s.WorkersOk) (h : s.Inv) (ha : s.assumed a = true)
    (hstep : s.step a = some s') : s'.reg.NoneFailed := by
  rcases h.reg_of_step hstep with hreg | ⟨act, hpart⟩
  · rw [hreg]
    exact hs.noneFailed
  · exact hs.noneFailed.step (hpart.registers_of_assumed ha) hpart.step

/-- A worker leaves a call when it has returned. -/
lemma calls_step (hs : s.WorkersOk) (h : s.Inv) (hstep : s.step a = some s') :
    ∀ b c, s'.call b = some c → ∃ r, s'.h.reqs b = some r ∧ r.pc.calling = true := by
  cases workEffect_of_step hstep with
  | quiet hh hcall =>
    rw [hh, hcall]
    exact hs.calls
  | handler act hh hact hcur hreg hcall =>
    rw [hcall]
    intro b c hc
    obtain ⟨r, hr, hcalling⟩ := hs.calls b c hc
    obtain ⟨r', hr', hkept, -⟩ := Handoff.kept_of_step h.h.linked hh hact b r hr
    exact ⟨r', hr', by rw [hkept.pc]; exact hcalling⟩
  | work b w r hr hreads hw hh hreg hcall =>
    rw [hcall]
    refine PartialMap.forall_update (fun c k hne hk => ?_) nofun
    obtain ⟨q, hq, hcalling⟩ := hs.calls c k hk
    exact ⟨q, (hw.reqs_of_ne hne).trans hq, hcalling⟩
  | call b r act hr hnone hact hreg hh hcall =>
    rw [hcall, hh]
    refine PartialMap.forall_update (fun c k _ => hs.calls c k) fun k _ => ?_
    exact ⟨r, hr, AcProtAddReq.calling_of_call hact⟩

lemma passed_step (hs : s.WorkersOk) (h : s.Inv) (ha : s.assumed a = true)
    (hstep : s.step a = some s') :
    ∀ b r, s'.h.reqs b = some r → s'.Passed b r → s'.reg.Covers r.mm.mm := by
  have hold : ∀ b r, s.h.reqs b = some r → s.Passed b r → s'.reg.Covers r.mm.mm :=
    fun b r hr hp => hs.covers_step h ha hstep (.inr ⟨b, r, hr, rfl⟩) (hs.passed b r hr hp)
  intro b r' hr' hp
  cases workEffect_of_step hstep with
  | quiet hh hcall =>
    rw [Passed, hcall] at hp
    exact hold b r' (hh ▸ hr') hp
  | handler act hh hact hcur hreg hcall =>
    rw [Passed, hcall] at hp
    cases hr : s.h.reqs b with
    | none =>
      rw [Handoff.queued_of_step hh b r' hr' hr] at hp
      rcases hp with ⟨ret, hpc⟩ | ⟨hpc, -⟩ <;> cases hpc
    | some r =>
      obtain ⟨q, hq, hkept, -⟩ := Handoff.kept_of_step h.h.linked hh hact b r hr
      cases hr'.symm.trans hq
      rw [hkept.mm]
      rw [hkept.pc] at hp
      exact hold b r hr hp
  | work b' w r hr hreads hw hh hreg hcall =>
    by_cases hb : b = b'
    · subst hb
      rcases hp with ⟨ret, hpc⟩ | ⟨-, hc⟩
      · obtain ⟨hmm, rfl, hmmEq⟩ := hw.added hr' hpc
        rw [hmmEq]
        refine hold b r hr (.inr ⟨hmm, fun hnone => ?_⟩)
        simp [workReads, callReturned, hnone] at hreads
      · rw [hcall, Function.update_self] at hc
        exact absurd rfl hc
    · rw [Passed, hcall, Function.update_of_ne hb] at hp
      rw [hw.reqs_of_ne hb] at hr'
      exact hold b r' hr' hp
  | call b' r act hr hnone hact hreg hh hcall =>
    rw [hh] at hr'
    by_cases hb : b = b'
    · subst hb
      cases hr.symm.trans hr'
      rcases hp with hpc | ⟨hpc, -⟩
      · exact hold b r' hr' (.inl hpc)
      · have hadd : r'.call = some (.addEnter r'.mm.mm r'.newPid r'.newComm r'.jitAllowed) := by
          rw [AcProtAddReq.call, hpc]
        cases hact.symm.trans hadd
        exact hs.covers_workCall ha hr' hadd
          ⟨.req b .mm, r'.mm, Handoff.RefsOk.held_of_reqs hr' .mm, rfl⟩ hreg
    · rw [Passed, hcall, Function.update_of_ne hb] at hp
      exact hold b r' hr' hp

lemma checked_step (hs : s.WorkersOk) (h : s.Inv) (ha : s.assumed a = true)
    (hstep : s.step a = some s') :
    ∀ t th, s'.tasks t = some th → th.sys.isChecked = true → s'.reg.Covers th.mm := by
  have hkeep : ∀ t th, s.tasks t = some th → s.reg.Covers th.mm → s'.reg.Covers th.mm :=
    fun t th ht hc => hs.covers_step h ha hstep (.inl ⟨t, th, ht, rfl⟩) hc
  have hold : ∀ t th, s.tasks t = some th → th.sys.isChecked = true → s'.reg.Covers th.mm :=
    fun t th ht hc => hkeep t th ht (hs.checked t th ht hc)
  cases taskEffect_of_step hstep with
  | quiet htasks hnext hmm hexecs hclones =>
    rw [htasks]
    exact hold
  | acts t th sys h' hacts heq =>
    subst heq
    refine PartialMap.forall_update (fun u uh _ => hold u uh) fun uh huh hc => ?_
    cases huh
    rcases hacts.checked hc with hprot | hc
    · exact hkeep t th hacts.task (hs.covers_of_protects ⟨t, th, hacts.task, rfl⟩ hprot)
    · exact hold t th hacts.task hc
  | fork t th pid kind probed ht hsys hpid heq =>
    subst heq
    refine forall_fork nofun (fun hc => ?_) fun u uh _ => hold u uh
    cases probed <;> cases hc
  | execMmap t th x comm ht hsys halone heq =>
    subst heq
    refine PartialMap.forall_update (fun u uh _ => hold u uh) fun uh huh hc => ?_
    cases huh
    cases hc
  | exit t th ht hsys heq =>
    subst heq
    exact PartialMap.forall_update (fun u uh _ => hold u uh) nofun
  | root t th ht hprot heq =>
    subst heq
    intro u uh' hu' hc
    obtain ⟨uh, hu, rfl⟩ := Option.map_eq_some_iff.mp hu'
    exact hold u uh hu hc

theorem step (hs : s.WorkersOk) (h : s.Inv) (ha : s.assumed a = true)
    (hstep : s.step a = some s') : s'.WorkersOk where
  guarded m := (hs.guarded m).step h (ne_delProc_of_assumed ha) hstep
  live _ := hs.live_step h ha hstep
  noneFailed := hs.noneFailed_step h ha hstep
  calls := hs.calls_step h hstep
  passed := hs.passed_step h ha hstep
  checked := hs.checked_step h ha hstep

end WorkersOk

end Inherit

end Anticheat
