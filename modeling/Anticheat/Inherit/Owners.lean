import Anticheat.Handoff.Delivery
import Anticheat.Inherit.Tasks

/-!
# Which process a request belongs to

A pending fork-inherit request belongs to the process it was queued for: an exec that claims it is
one of that process. Two things could break this, the reuse of a pid that a handoff advertises and
the wrap of the request tags; `keepsOwners` rules them out step by step.
-/

namespace Anticheat

open Transition

/-! ### Pending requests across a step -/

namespace Handoff

variable {s s' : Handoff} {act : HandoffAct}

/-- A linked request is new, or it was linked before, for the same process. A handoff it advertises
was there or is being posted by an exec that claimed the request. -/
lemma linked_of_step (hstep : s.step act = some s') :
    ∀ b r', s'.reqs b = some r' → r'.IsLinked →
      (r'.serial = s.serial + 1 ∧ r'.postMm = none) ∨
      ∃ r, s.reqs b = some r ∧ r.IsLinked ∧ r'.newPid = r.newPid ∧ r'.serial = r.serial ∧
        ((r'.postMm = r.postMm ∧ r'.postPid = r.postPid) ∨
          ∃ x rc m pid comm jit addr c, act = .execRet x rc m pid comm jit addr ∧
            s.execs x = some (.claimed c) ∧ c.pendingReq = b ∧ r.reqId = c.pendingId ∧
            r'.postPid = pid) := by
  have hsame : ∀ b r, s.reqs b = some r → r.IsLinked →
      (r.serial = s.serial + 1 ∧ r.postMm = none) ∨
      ∃ q, s.reqs b = some q ∧ q.IsLinked ∧ r.newPid = q.newPid ∧ r.serial = q.serial ∧
        ((r.postMm = q.postMm ∧ r.postPid = q.postPid) ∨
          ∃ x rc m pid comm jit addr c, act = .execRet x rc m pid comm jit addr ∧
            s.execs x = some (.claimed c) ∧ c.pendingReq = b ∧ q.reqId = c.pendingId ∧
            r.postPid = pid) :=
    fun b r hr hl => .inr ⟨r, hr, hl, rfl, rfl, .inl ⟨rfl, rfl⟩⟩
  cases rule_of_step hstep with
  | scanClaim x m tgid b r hx ha hr hclaim =>
    refine PartialMap.forall_update (fun c q _ => hsame c q) fun q hq hl => ?_
    cases hq
    exact .inr ⟨r, hr, hl, rfl, rfl, .inl ⟨rfl, rfl⟩⟩
  | retPost x rc m pid comm jit addr c r hreg hx ha hr hid =>
    refine PartialMap.forall_update (fun c q _ => hsame c q) fun q hq hl => ?_
    cases hq
    exact .inr ⟨r, hr, hl, rfl, rfl,
      .inr ⟨x, rc, some m, pid, comm, jit, addr, c, rfl, hx, rfl, hid, rfl⟩⟩
  | retWake x rc pid comm jit addr c r hreg hx ha hr =>
    refine PartialMap.forall_update (fun c q _ => hsame c q) fun q hq hl => ?_
    cases hq
    exact .inr ⟨r, hr, hl, rfl, rfl, .inl ⟨rfl, rfl⟩⟩
  | requeue x c mm pid comm b hx hb =>
    refine PartialMap.forall_update (fun c q _ => hsame c q) fun q hq _ => ?_
    cases hq
    exact .inl ⟨rfl, rfl⟩
  | rekey x m pid comm jit b old slot hreg hx hm hb =>
    refine PartialMap.forall_update (fun c q _ => hsame c q) fun q hq hl => ?_
    cases hq
    cases hl.1
  | cloneSchedule y c ppid pcomm jit b hy hb =>
    refine PartialMap.forall_update (fun c q _ => hsame c q) fun q hq _ => ?_
    cases hq
    exact .inl ⟨rfl, rfl⟩
  | work b r w s' hr hw =>
    cases hw with
    | wait hpc hold hclaimed =>
      refine PartialMap.forall_update (fun c q _ => hsame c q) fun q hq hl => ?_
      cases hq
      exact .inr ⟨r, hr, ⟨hold, by rw [hpc]; rfl⟩, rfl, rfl, .inl ⟨rfl, rfl⟩⟩
    | addMm hpc hfree =>
      refine PartialMap.forall_update (fun c q _ => hsame c q) fun q hq hl => ?_
      cases hq
      exact .inr ⟨r, hr, ⟨hl.1, by rw [hpc]; rfl⟩, rfl, rfl, .inl ⟨rfl, rfl⟩⟩
    | addedMm ret hpc =>
      refine PartialMap.forall_update (fun c q _ => hsame c q) fun q hq hl => ?_
      cases hq
      exact .inr ⟨r, hr, ⟨hl.1, by rw [hpc]; rfl⟩, rfl, rfl, .inl ⟨rfl, rfl⟩⟩
    | wake timedOut hpc hdone =>
      refine PartialMap.forall_update (fun c q _ => hsame c q) fun q hq hl => ?_
      cases hq
      have := hl.2
      rw [AcProtAddReq.consume_pc] at this
      cases this
    | finish hpc => exact PartialMap.forall_update (fun c q _ => hsame c q) fun q hq => nomatch hq
    | _ =>
      refine PartialMap.forall_update (fun c q _ => hsame c q) fun q hq hl => ?_
      cases hq
      cases hl.2
  | _ => exact hsame

/-- An instance has claimed a request before, or the scan of `ac_exec_entry` finds one now. -/
lemma claimed_of_step (hlink : s.Linked) (hstep : s.step act = some s') {x : InstId}
    {c : ExecClaim} (hx : s'.execs x = some (.claimed c)) :
    s.execs x = some (.claimed c) ∨ ∃ m tgid r, act = .entryScan x m tgid ∧
      s.reqs c.pendingReq = some r ∧ r.IsLinked ∧ r.claimable m tgid = true ∧
      c.serial = r.serial := by
  have hne : ∀ {z : InstId} {i : Option ExecInst},
      Function.update s.execs z i x = some (.claimed c) → (∀ c, i ≠ some (.claimed c)) →
      s.execs x = some (.claimed c) :=
    fun hx hi => Tagged.claimed_of_setExec hi x c hx
  cases rule_of_step hstep with
  | scanClaim z m tgid b r hz hb hr hclaim =>
    obtain ⟨r', hr', hlinked⟩ := (hlink.mem_iff b).mp hb
    obtain rfl : r' = r := Option.some.inj (hr'.symm.trans hr)
    replace hx : Function.update s.execs z _ x = some (.claimed c) := hx
    by_cases hxz : x = z
    · subst hxz
      rw [Function.update_self] at hx
      cases hx
      exact .inr ⟨m, tgid, r', rfl, hr, hlinked, hclaim, rfl⟩
    · rw [Function.update_of_ne hxz] at hx
      exact .inl hx
  | work b r w s' hr hw =>
    obtain ⟨hexecs, -⟩ := hw.frame
    exact .inl (hexecs ▸ hx)
  | unregister k => exact .inl hx
  | dropPin i hi hreg hidle => exact .inl hx
  | cloneSame y m cpid ccomm hy => exact .inl hx
  | cloneGet y m cur cpid ccomm hy hm => exact .inl hx
  | cloneSchedule y i ppid pcomm jit b hy hb => exact .inl hx
  | cloneDropped y i ppid pcomm jit hy => exact .inl hx
  | _ => exact .inl (hne hx nofun)

end Handoff

/-! ### Owners -/

namespace Inherit

/-- No pending request advertises a handoff of another process under this pid. -/
def pidFresh (s : Inherit) (pid : ℤ) : Bool :=
  s.h.pending.all fun b => (s.h.reqs b).all fun r =>
    r.postMm.isNone || r.postPid != pid || r.newPid == pid

/-- Fewer than `2 ^ 32` requests were queued since the one the exec of the task claimed. -/
def tagFresh (s : Inherit) (th : Thread) : Bool :=
  match th.sys.inst.bind s.h.execs with
  | some (.claimed c) => decide (s.h.serial < c.serial + 2 ^ 32)
  | _ => true

/-- The steps that cannot hand a request to another process. -/
def keepsOwners (s : Inherit) : InheritAct → Bool
  | .task _ (.fork pid _ _) => s.pidFresh pid
  | .task t (.execRet _ _) => (s.tasks t).all s.tagFresh
  | _ => true

/-- The claims on a request and the handoffs in it are those of its own process. -/
structure Owners (s : Inherit) : Prop where
  claim : ∀ t th x c r, s.tasks t = some th → th.sys.inst = some x →
    s.h.execs x = some (.claimed c) → s.h.reqs c.pendingReq = some r → r.IsLinked →
    r.serial = c.serial → r.newPid = th.tgid
  post : ∀ b r u uh, s.h.reqs b = some r → r.IsLinked → r.postMm ≠ none → s.tasks u = some uh →
    uh.tgid = r.postPid → uh.tgid = r.newPid

variable {s s' : Inherit} {a : InheritAct}

/-- The processes after a step are those before it and, after a fork, the new one. -/
lemma tgid_of_step (hstep : s.step a = some s') :
    ∀ u uh', s'.tasks u = some uh' → (∃ v vh, s.tasks v = some vh ∧ vh.tgid = uh'.tgid) ∨
      ∃ t kind probed, a = .task t (.fork uh'.tgid kind probed) := by
  cases taskEffect_of_step hstep with
  | quiet htasks hnext hmm hexecs hclones =>
    exact fun u uh hu => .inl ⟨u, uh, htasks ▸ hu, rfl⟩
  | acts t th sys h' hacts heq =>
    subst heq
    refine PartialMap.forall_update (fun u uh _ hu => .inl ⟨u, uh, hu, rfl⟩) fun uh huh => ?_
    cases huh
    exact .inl ⟨t, th, hacts.task, rfl⟩
  | fork t th pid kind probed ht hsys hpid heq =>
    subst heq
    refine forall_fork ?_ (.inl ⟨t, th, ht, rfl⟩) fun u uh _ hu => .inl ⟨u, uh, hu, rfl⟩
    simp only [child]
    split_ifs
    · exact .inl ⟨t, th, ht, rfl⟩
    · exact .inr ⟨t, kind, probed, rfl⟩
  | execMmap t th x comm ht hsys halone heq =>
    subst heq
    refine PartialMap.forall_update (fun u uh _ hu => .inl ⟨u, uh, hu, rfl⟩) fun uh huh => ?_
    cases huh
    exact .inl ⟨t, th, ht, rfl⟩
  | exit t th ht hsys heq =>
    subst heq
    exact PartialMap.forall_update (fun u uh _ hu => .inl ⟨u, uh, hu, rfl⟩) (by simp)
  | root t th ht hprot heq =>
    subst heq
    intro u uh' hu'
    obtain ⟨uh, hu, rfl⟩ := Option.map_eq_some_iff.mp hu'
    exact .inl ⟨u, uh, hu, rfl⟩

/-- A task in an exec whose instance has claimed a request was in it before, with the same
instance. -/
lemma inst_of_step (hstep : s.step a = some s') {x : InstId}
    {c : ExecClaim} (hx : s'.h.execs x = some (.claimed c)) :
    ∀ u uh', s'.tasks u = some uh' → uh'.sys.inst = some x →
      ∃ uh, s.tasks u = some uh ∧ uh.sys.inst = some x ∧ uh.tgid = uh'.tgid := by
  cases taskEffect_of_step hstep with
  | quiet htasks hnext hmm hexecs hclones =>
    exact fun u uh hu hux => ⟨uh, htasks ▸ hu, hux, rfl⟩
  | acts t th sys h' hacts heq =>
    subst heq
    refine PartialMap.forall_update (fun u uh _ hu hux => ⟨uh, hu, hux, rfl⟩) fun uh huh hux => ?_
    cases huh
    rcases (hacts.inst x hux).2 with hthx | ⟨-, hnot⟩
    · exact ⟨th, hacts.task, hthx, rfl⟩
    · exact absurd hx (hnot c)
  | fork t th pid kind probed ht hsys hpid heq =>
    subst heq
    refine forall_fork nofun (fun hux => ?_) fun u uh _ hu hux => ⟨uh, hu, hux, rfl⟩
    cases probed <;> cases hux
  | execMmap t th z comm ht hsys halone heq =>
    subst heq
    refine PartialMap.forall_update (fun u uh _ hu hux => ⟨uh, hu, hux, rfl⟩) fun uh huh hux => ?_
    cases huh
    exact ⟨th, ht, by rw [hsys]; exact hux, rfl⟩
  | exit t th ht hsys heq =>
    subst heq
    exact PartialMap.forall_update (fun u uh _ hu hux => ⟨uh, hu, hux, rfl⟩) nofun
  | root t th ht hprot heq =>
    subst heq
    intro u uh' hu' hux
    obtain ⟨uh, hu, rfl⟩ := Option.map_eq_some_iff.mp hu'
    exact ⟨uh, hu, hux, rfl⟩

namespace Owners

lemma init : Inherit.init.Owners where
  claim _ _ _ _ _ _ _ h := nomatch h
  post _ _ _ _ h := nomatch h

/-- An exec of the process of a request, or of the process in its handoff, may claim it. -/
lemma newPid_of_claimable (ho : s.Owners) {b u : ℕ} {r : AcProtAddReq} {uh : Thread} {m : ℕ}
    (hr : s.h.reqs b = some r) (hl : r.IsLinked) (hclaim : r.claimable m uh.tgid = true)
    (hu : s.tasks u = some uh) : r.newPid = uh.tgid := by
  rw [AcProtAddReq.claimable, Bool.or_eq_true, Bool.and_eq_true, Bool.and_eq_true,
    Bool.and_eq_true, beq_iff_eq, beq_iff_eq, beq_iff_eq, beq_iff_eq] at hclaim
  rcases hclaim with ⟨-, hpid⟩ | ⟨⟨-, hpost⟩, hpid⟩
  · exact hpid
  · refine (ho.post b r u uh hr hl (fun hnone => ?_) hu hpid.symm).symm
    rw [hnone] at hpost
    cases hpost

/-- A return handler posts into a request of its own process. -/
lemma newPid_of_claimed (ho : s.Owners) (htag : s.h.Tagged) {t : ℕ} {th : Thread} {x : InstId}
    {c : ExecClaim} {r : AcProtAddReq} (ht : s.tasks t = some th) (hx : th.sys.inst = some x)
    (hc : s.h.execs x = some (.claimed c)) (hr : s.h.reqs c.pendingReq = some r)
    (hl : r.IsLinked) (hid : r.reqId = c.pendingId) (hfresh : s.tagFresh th = true) :
    r.newPid = th.tgid := by
  refine ho.claim t th x c r ht hx hc hr hl (htag.serial_eq hc hr hl.1 hid ?_)
  simpa [tagFresh, hx, hc] using hfresh

theorem step (ho : s.Owners) (h : s.Inv) (htag : s.h.Tagged) (ht : s.TasksOk) (hi : s.InstsOk)
    (hok : s.keepsOwners a = true) (hstep : s.step a = some s') : s'.Owners := by
  have hh := h_of_step hstep
  constructor
  · intro u uh' x c r' hu' hux hx' hr' hl' hser
    obtain ⟨uh, hu, hux, htgid⟩ := inst_of_step hstep hx' u uh' hu' hux
    rw [← htgid]
    rcases hh with hh | ⟨act, hh, hcur⟩
    · rw [hh] at hx' hr'
      exact ho.claim u uh x c r' hu hux hx' hr' hl' hser
    · have hlinked := Handoff.linked_of_step hh c.pendingReq r' hr' hl'
      rcases Handoff.claimed_of_step h.h.linked hh hx' with hx |
        ⟨m, tgid, r, rfl, hr, hl, hclaim, hcser⟩
      · rcases hlinked with ⟨hnew, -⟩ | ⟨r, hr, hl, hpid, hser', -⟩
        · -- a new request is younger than any claim
          have := (htag.claim x c hx).1
          omega
        · rw [hpid]
          exact ho.claim u uh x c r hu hux hx hr hl (hser'.symm.trans hser)
      · obtain ⟨t, th, -, htask, hsys, rfl, rfl⟩ := hcur
        obtain rfl : u = t := hi.execs.inj u t uh th x hu htask hux (by rw [hsys]; rfl)
        obtain rfl : uh = th := Option.some.inj (hu.symm.trans htask)
        rcases hlinked with ⟨hnew, -⟩ | ⟨r₀, hr₀, hl₀, hpid, -⟩
        · have := (htag.req _ r hr hl.1).1
          omega
        · obtain rfl : r = r₀ := Option.some.inj (hr.symm.trans hr₀)
          rw [hpid]
          exact ho.newPid_of_claimable hr hl hclaim hu
  · intro b r' u uh' hr' hl' hpost' hu' htgid
    have hproc := tgid_of_step hstep u uh' hu'
    -- a request whose handoff was there before
    have hold : ∀ r, s.h.reqs b = some r → r.IsLinked → r.postMm ≠ none →
        uh'.tgid = r.postPid → uh'.tgid = r.newPid := by
      intro r hr hl hpost htgid
      rcases hproc with ⟨v, vh, hv, hvtgid⟩ | ⟨t, kind, probed, rfl⟩
      · exact hvtgid ▸ ho.post b r v vh hr hl hpost hv (hvtgid.trans htgid)
      · have hmem : b ∈ s.h.pending := (h.h.linked.mem_iff b).mpr ⟨r, hr, hl⟩
        have hr' := List.all_eq_true.mp hok b hmem
        simp only [hr, Option.all_some, Bool.or_eq_true, Option.isNone_iff_eq_none, bne_iff_ne,
          beq_iff_eq] at hr'
        rcases hr' with (hnone | hne) | heq
        · exact absurd hnone hpost
        · exact absurd htgid.symm hne
        · exact heq.symm
    rcases hh with hh | ⟨act, hh, hcur⟩
    · exact hold r' (hh ▸ hr') hl' hpost' htgid
    · rcases Handoff.linked_of_step hh b r' hr' hl' with ⟨-, hnone⟩ |
        ⟨r, hr, hl, hpid, -, ⟨hpost, hpostPid⟩ |
          ⟨x, rc, m, pid, comm, jit, addr, c, rfl, hx, rfl, hid, rfl⟩⟩
      · exact absurd hnone hpost'
      · rw [hpid]
        exact hold r hr hl (hpost ▸ hpost') (hpostPid ▸ htgid)
      · obtain ⟨t, th, rfl, htask, hux, -, hpidEq⟩ := hcur
        have hfresh : s.tagFresh th = true := by simpa [keepsOwners, htask] using hok
        rw [hpid, ho.newPid_of_claimed htag htask hux hx hr hl hid hfresh]
        rcases hproc with ⟨v, vh, hv, hvtgid⟩ | ⟨t', kind, probed, hfork⟩
        · rw [← hvtgid]
          exact (ht.pid t v th vh htask hv (by rw [← hpidEq, ← htgid, hvtgid])).symm
        · cases hfork

end Owners

end Inherit

end Anticheat
