import Anticheat.Inherit.Coverage

/-!
# Trees of protected processes

When the workqueue is drained and nobody is in a fork or an exec, a process of the tree can only
be covered by an entry, so it is registered. The two runs at the end show what happens when a
handler comes too early: a child that forks before its own registration has landed, and a process
that execs twice before its rekey has.
-/

namespace Anticheat

open Transition

namespace Inherit

/-- The workqueue is drained and no fork or exec is in progress. -/
structure Settled (s : Inherit) : Prop where
  drained : ∀ b, s.h.reqs b = none
  idle : ∀ t th, s.tasks t = some th → th.sys = .user ∨ th.sys = .dying

variable {s s' : Inherit} {a : InheritAct} {t : ℕ} {th : Thread} {as : List InheritAct}

/-- The runs whose steps are assumed and in time, with what the execs have met. -/
def timelyStep : Inherit × (ℕ → Bool) → InheritAct → Option (Inherit × (ℕ → Bool)) :=
  restrict (fun p a => p.1.assumed a && p.1.inTime p.2 a) (watch noteEntry step)

variable {met : ℕ → Bool}

lemma run_of_timely (hrun : run timelyStep (init, fun _ => false) as = some (s, met)) :
    run step init as = some s :=
  run_of_run_watch (run_of_run_restrict hrun)

namespace Good

theorem of_run (hrun : run timelyStep (Inherit.init, fun _ => false) as = some (s, met)) :
    s.Good met := by
  refine run_invariant (P := fun p => p.1.Good p.2) (fun p a p' hp hstep => ?_) Good.init hrun
  obtain ⟨hok, hstep⟩ := restrict_eq_some.mp hstep
  obtain ⟨ha, hin⟩ := Bool.and_eq_true_iff.mp hok
  obtain ⟨hstep, hnote⟩ := watch_eq_some.mp hstep
  rw [← hnote]
  exact hp.step ha hin hstep

/-- Nobody is left on the way to register anything. -/
lemma covers_of_settled (hg : s.Good met) (hs : s.Settled) (ht : s.tasks t = some th)
    (htree : th.tree = true) (hsys : th.sys = .user) : s.reg.Covers th.mm := by
  cases hg.covered t th ht htree (by rw [hsys]; rfl) with
  | entry h => exact h
  | request b r hr howner hwill => exact absurd (hr.symm.trans (hs.drained b)) nofun
  | birth u uh pc hu hutree husys hbears =>
    rcases hs.idle u uh hu with hidle | hidle <;> cases husys.symm.trans hidle
  | exec u uh x pc hu htgid husys hcarries =>
    rcases hs.idle u uh hu with hidle | hidle <;> cases husys.symm.trans hidle

end Good

/-- In every run whose steps all are in time, once the workqueue is drained and no fork or exec is
in progress, the mm of every live process of a protected tree is registered. -/
theorem tree_protected (hrun : run timelyStep (init, fun _ => false) as = some (s, met))
    (hs : s.Settled) : ∀ t th, s.tasks t = some th → th.tree = true → th.sys = .user →
      s.protects th.mm = true := by
  intro t th ht htree hsys
  have hg := Good.of_run hrun
  rw [protects, acIsProtectedMm_some]
  obtain ⟨i, hl | hcl⟩ := hg.covers_of_settled hs ht htree hsys
  · exact ⟨i, hl.mm⟩
  · -- the worker that claims the slot would still have its request
    obtain ⟨b, c, hc, -⟩ := hg.claimed t th i ht htree hcl
    obtain ⟨r, hr, -⟩ := hg.workers.calls b c hc
    cases hr.symm.trans (hs.drained b)

end Inherit

/-! ### Where requests are -/

/-- The address at which the handler allocates a request. -/
def HandoffAct.addr : HandoffAct → Option ℕ
  | .execRet _ _ _ _ _ _ addr => addr
  | .requeue _ addr => addr
  | .cloneSchedule _ _ _ _ addr => addr
  | _ => none

/-- The address at which the step allocates a request. -/
def InheritAct.addr : InheritAct → Option ℕ
  | .task _ (.cloneSchedule addr) => addr
  | .task _ (.execRet _ addr) => addr
  | .task _ (.execRequeue addr) => addr
  | _ => none

/-- A request is where it was allocated. -/
lemma Handoff.addr_of_step {s s' : Handoff} {act : HandoffAct} (hstep : s.step act = some s') :
    ∀ b r, s'.reqs b = some r → s.reqs b ≠ none ∨ act.addr = some b := by
  have hsame : ∀ b r, s.reqs b = some r → s.reqs b ≠ none ∨ act.addr = some b :=
    fun b r hr => .inl (by simp [hr])
  have hset : ∀ {c : ℕ} {o : Option AcProtAddReq}, s.reqs c ≠ none ∨ act.addr = some c →
      ∀ b r, Function.update s.reqs c o b = some r → s.reqs b ≠ none ∨ act.addr = some b :=
    fun hc => PartialMap.forall_update (fun b r _ => hsame b r) fun _ _ => hc
  cases rule_of_step hstep with
  | scanClaim x m tgid c r hx hc hr hclaim => exact hset (.inl (by simp [hr]))
  | retPost x rc m pid comm jit addr c r hreg hx ha hr hid => exact hset (.inl (by simp [hr]))
  | retWake x rc pid comm jit addr c r hreg hx ha hr => exact hset (.inl (by simp [hr]))
  | requeue x c mm pid comm b hx hb => exact hset (.inr rfl)
  | rekey x m pid comm jit b old slot hreg hx hm hb => exact hset (.inr rfl)
  | cloneSchedule y c ppid pcomm jit b hy hb => exact hset (.inr rfl)
  | work c r w s' hr hw =>
    intro b q hq
    by_cases hb : b = c
    · subst hb
      exact .inl (by simp [hr])
    · exact hsame b q (hw.reqs_of_ne hb ▸ hq)
  | _ => exact hsame

namespace Inherit

variable {s s' : Inherit} {a : InheritAct} {as : List InheritAct}

lemma addr_of_step (hstep : s.step a = some s') :
    ∀ b r, s'.h.reqs b = some r → s.h.reqs b ≠ none ∨ a.addr = some b := by
  cases rule_of_step hstep with
  | cloneSame t th child u y c h' ht hsys hu hmm hh =>
    exact fun b r hr => (Handoff.addr_of_step hh b r hr).imp_right nofun
  | cloneGet t th child u y c h' ht hsys hu hmm hh =>
    exact fun b r hr => (Handoff.addr_of_step hh b r hr).imp_right nofun
  | cloneSchedule t th child y addr h' ht hsys hh => exact Handoff.addr_of_step hh
  | execPin t th x h' ht hsys hprot hh =>
    exact fun b r hr => (Handoff.addr_of_step hh b r hr).imp_right nofun
  | execMiss t th x h' ht hsys hprot hh =>
    exact fun b r hr => (Handoff.addr_of_step hh b r hr).imp_right nofun
  | execScan t th x h' ht hsys hh =>
    exact fun b r hr => (Handoff.addr_of_step hh b r hr).imp_right nofun
  | execRet t th x mapped rc addr h' ht hsys hrc hh hx => exact Handoff.addr_of_step hh
  | execGone t th x mapped rc addr h' ht hsys hrc hh hx => exact Handoff.addr_of_step hh
  | execRequeue t th x mapped dying addr h' ht hsys hh => exact Handoff.addr_of_step hh
  | work c w r h' hr hreads hh =>
    exact fun b r hr => (Handoff.addr_of_step hh b r hr).imp_right nofun
  | _ => exact fun b r hr => .inl (Option.ne_none_iff_exists'.mpr ⟨r, hr⟩)

/-- To see that a run is settled it is enough to look where it put something. -/
lemma settled_of_run (hrun : run step init as = some s)
    (hreqs : ∀ b ∈ as.filterMap InheritAct.addr, s.h.reqs b = none)
    (hidle : s.anyTask (fun th => th.sys != .user && th.sys != .dying) = false) : s.Settled := by
  constructor
  · intro b
    by_contra hne
    obtain ⟨r, hr⟩ := Option.ne_none_iff_exists'.mp hne
    by_cases hb : b ∈ as.filterMap InheritAct.addr
    · exact hne (hreqs b hb)
    · refine run_invariant_of_forall (P := fun t => t.h.reqs b = none)
        (A := fun a => a.addr ≠ some b) (fun t a t' ha ht hstep => ?_) (fun a hmem haddr => ?_)
        rfl hrun |> hne
      · by_contra hne'
        obtain ⟨r', hr'⟩ := Option.ne_none_iff_exists'.mp hne'
        exact (addr_of_step hstep b r' hr').elim (absurd ht) ha
      · exact hb (List.mem_filterMap.mpr ⟨a, hmem, haddr⟩)
  · intro t th ht
    have hlt := ((Inv.init.of_run hrun).tasks t th ht).1
    have := of_anyTask_false hidle ht hlt
    simp only [Bool.and_eq_false_iff, bne_eq_false_iff_eq] at this
    exact this

/-! ### Runs -/

/-- The first process is registered and is the root of a tree. -/
def rootRun : List InheritAct := addProcRun ++ [.task 0 .root]

/-- It forks, and the request for its child is queued. -/
def forkRun : List InheritAct :=
  rootRun ++ [.task 0 (.fork 2 .copy true), .task 0 .cloneCheck, .task 0 .cloneFind,
    .task 0 (.cloneGet 0), .task 0 (.cloneSchedule (some 0))]

/-- The child execs at once, and the request takes the new image over. -/
def forkExecRun : List InheritAct :=
  forkRun ++ [.task 1 (.execEntry (some (0, 0))), .task 1 .execScan, .task 1 (.execMmap "game"),
    .work 0 .start, .task 1 (.execRet 0 (some 1)), .work 0 (.wake false), .work 0 .adopt,
    .workCall 0, .reg (.register 1 0), .reg (.addSettle 1), .work 0 (.added 0), .work 0 .finish]

lemma forkExecRun_runs :
    (run timelyStep (init, fun _ => false) forkExecRun).isSome = true := by
  decide +kernel

theorem tree_protected_forkExecRun :
    ∃ s met, run timelyStep (init, fun _ => false) forkExecRun = some (s, met) ∧
      s.Settled ∧ ∃ th, s.tasks 1 = some th ∧ th.tree = true ∧ th.sys = .user ∧
        s.protects th.mm = true := by
  have hrun := (Option.some_get forkExecRun_runs).symm
  have hs : (Option.get _ forkExecRun_runs).1.Settled :=
    settled_of_run (run_of_timely hrun) (by decide +kernel) (by decide +kernel)
  refine ⟨_, _, hrun, hs, ⟨2, 2, 2, "game", .user, true⟩, by decide +kernel, rfl, rfl, ?_⟩
  exact tree_protected hrun hs 1 _ (by decide +kernel) rfl rfl

/-- The child forks before the request for it has run, and `ac_clone_ret` finds it unprotected. -/
def grandchildRun : List InheritAct :=
  forkRun ++ [.task 1 (.fork 3 .copy true), .task 1 .cloneCheck, .work 0 .start, .workCall 0,
    .reg (.register 1 0), .reg (.addSettle 1), .work 0 (.added 0), .work 0 .unlink,
    .work 0 .finish]

/-- The root execs a second time before the rekey of the first has run, and `ac_exec_entry` finds
neither an entry nor a pending request. -/
def reexecRun : List InheritAct :=
  rootRun ++ [.task 0 .pinForeign, .task 0 (.execEntry (some (0, 0))), .task 0 (.execMmap "a"),
    .task 0 (.execRet 0 (some 0)), .task 0 (.execEntry (some (0, 0))), .task 0 .execScan,
    .task 0 (.execMmap "b"), .task 0 (.execRet 0 (some 1)), .work 0 .start, .workCall 0,
    .reg (.register 1 0), .reg (.addSettle 1), .work 0 (.added 0), .work 0 (.users true),
    .work 0 .putOld, .work 0 .finish]

/-- After the run everything has settled, and the task is a live process of the tree that is not
registered. -/
def Leaves (as : List InheritAct) (t : ℕ) : Prop :=
  ∃ s, run (restrict assumed step) init as = some s ∧ s.Settled ∧
    ∃ th, s.tasks t = some th ∧ th.tree = true ∧ th.sys = .user ∧ s.protects th.mm = false

lemma grandchildRun_runs : (run (restrict assumed step) init grandchildRun).isSome = true := by
  decide +kernel

lemma reexecRun_runs : (run (restrict assumed step) init reexecRun).isSome = true := by
  decide +kernel

theorem tree_unprotected : Leaves grandchildRun 2 ∧ Leaves reexecRun 0 := by
  constructor
  · have hrun := (Option.some_get grandchildRun_runs).symm
    have hs : (Option.get _ grandchildRun_runs).Settled :=
      settled_of_run (run_of_run_restrict hrun) (by decide +kernel) (by decide +kernel)
    exact ⟨_, hrun, hs, ⟨3, 3, 2, "init", .user, true⟩, by decide +kernel, rfl, rfl,
      by decide +kernel⟩
  · have hrun := (Option.some_get reexecRun_runs).symm
    have hs : (Option.get _ reexecRun_runs).Settled :=
      settled_of_run (run_of_run_restrict hrun) (by decide +kernel) (by decide +kernel)
    exact ⟨_, hrun, hs, ⟨1, 1, 2, "b", .user, true⟩, by decide +kernel, rfl, rfl,
      by decide +kernel⟩

end Inherit

end Anticheat
