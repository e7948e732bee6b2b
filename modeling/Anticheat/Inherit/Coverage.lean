import Anticheat.Inherit.Workers

/-!
# Protection follows the tree

A process of a protected tree that is not registered yet has somebody on the way to register it: a
request, a parent in `ac_clone_ret`, or its own exec. `Covered` says who. What the code does not
provide for are handlers that run while their own process is still waiting: `inTime` says of each
step that it does not come too early, and then `Covered` holds in every state.
-/

namespace Anticheat

open Transition

/-! ### What a worker will register -/

namespace AcProtAddReq

/-- The worker is going to pass `m` to `ac_add_prot_mm`. `called` says that the call it stands at
has begun. -/
def WillAdd (r : AcProtAddReq) (called : Prop) (m : ℕ) : Prop :=
  match r.pc with
  | .queued => (r.postMm.getD r.mm).mm = m
  | .waiting => (r.postMm.getD r.mm).mm = m
  | .consumed post => (post.getD r.mm).mm = m
  | .addPost => ¬ called ∧ r.mm.mm = m
  | .addLost => ¬ called ∧ r.mm.mm = m
  | .addMm => (r.postMm = none → ¬ called) ∧ (r.postMm.getD r.mm).mm = m
  | .added _ => ∃ p, r.postMm = some p ∧ p.mm = m
  | .addLate _ p _ _ => ¬ called ∧ p.mm = m
  | _ => False

variable {r r' : AcProtAddReq} {called : Prop} {m : ℕ}

lemma WillAdd.kept (h : r.WillAdd called m) (hkept : r.Kept r') (hpost : r'.postMm = r.postMm) :
    r'.WillAdd called m := by
  unfold WillAdd at h ⊢
  rw [hkept.pc, hkept.mm, hpost]
  exact h

/-- The worker of a linked request registers the handoff posted into it. -/
lemma willAdd_of_post {p : Ref} (hpc : r.pc.linked = true) (hpost : r.postMm = some p) :
    r.WillAdd called p.mm := by
  unfold WillAdd
  cases hr : r.pc with
  | queued => simp [hpost]
  | waiting => simp [hpost]
  | addMm => simp [hpost]
  | added ret => exact ⟨p, hpost, rfl⟩
  | _ =>
    rw [hr] at hpc
    cases hpc

lemma willAdd_of_queued (hpc : r.pc = .queued) (hpost : r.postMm = none) :
    r.WillAdd called r.mm.mm := by
  simp [WillAdd, hpc, hpost]

/-- A worker that begins the call it stands at registers the mm, or has another to register. -/
lemma WillAdd.call (h : r.WillAdd called m) (called' : Prop) {act : RegAct ℕ}
    (hact : r.call = some act) :
    (∃ f t pid comm jit, r.held f = some t ∧ t.mm = m ∧ act = .addEnter m pid comm jit) ∨
      r.WillAdd called' m := by
  unfold AcProtAddReq.call at hact
  unfold WillAdd at h ⊢
  cases hpc : r.pc with
  | addPost =>
    rw [hpc] at h hact
    cases hact
    exact .inl ⟨.mm, r.mm, _, _, _, rfl, h.2, by rw [h.2]⟩
  | addLost =>
    rw [hpc] at h hact
    cases hact
    exact .inl ⟨.mm, r.mm, _, _, _, rfl, h.2, by rw [h.2]⟩
  | addMm =>
    rw [hpc] at h hact
    cases hact
    cases hpost : r.postMm with
    | none =>
      have hm : r.mm.mm = m := by simpa [hpost] using h.2
      exact .inl ⟨.mm, r.mm, _, _, _, rfl, hm, by rw [hm]⟩
    | some p => exact .inr ⟨nofun, by simpa [hpost] using h.2⟩
  | addLate ret p pid comm =>
    rw [hpc] at h hact
    cases hact
    exact .inl ⟨.worker, p, _, _, _, by simp [held, hpc], h.2, by rw [h.2]⟩
  | delOld =>
    rw [hpc] at h
    exact h.elim
  | _ =>
    rw [hpc] at hact
    cases hact

end AcProtAddReq

namespace Handoff

variable {s s' : Handoff} {b : ℕ} {r : AcProtAddReq} {w : WorkAct} {called : Prop} {m : ℕ}

/-- A worker on its way to register an mm stays on it, unless it has registered that mm before. -/
lemma WorkRule.willAdd (hw : s.WorkRule b r w s') (hok : r.Ok) (h : r.WillAdd called m)
    (hcalled : ∀ ret, w = .added ret → called) :
    (∃ r', s'.reqs b = some r' ∧ (r'.IsLinked → r.IsLinked ∧ r'.newPid = r.newPid) ∧
      r'.WillAdd False m) ∨ ((∃ ret, r.pc = .added ret) ∧ r.mm.mm = m) := by
  have hset : ∀ {r' : AcProtAddReq}, (r'.IsLinked → r.IsLinked ∧ r'.newPid = r.newPid) →
      r'.WillAdd False m → (∃ q, Function.update s.reqs b (some r') b = some q ∧
        (q.IsLinked → r.IsLinked ∧ q.newPid = r.newPid) ∧ q.WillAdd False m) ∨
        ((∃ ret, r.pc = .added ret) ∧ r.mm.mm = m) :=
    fun hl hwill => .inl ⟨_, Function.update_self _ _ _, hl, hwill⟩
  unfold AcProtAddReq.WillAdd at h
  cases hw with
  | wait hpc hold hclaimed =>
    rw [hpc] at h
    exact hset (fun _ => ⟨⟨hold, by rw [hpc]; rfl⟩, rfl⟩) h
  | addMm hpc hfree =>
    rw [hpc] at h
    exact hset (fun hl => ⟨⟨hl.1, by rw [hpc]; rfl⟩, rfl⟩) ⟨fun _ => id, h⟩
  | wake timedOut hpc hdone =>
    rw [hpc] at h
    refine hset (fun hl => ?_) ?_
    · have := hl.2
      rw [AcProtAddReq.consume_pc] at this
      cases this
    · simpa [AcProtAddReq.WillAdd] using h
  | adopt p hpc =>
    rw [hpc] at h
    exact hset (fun hl => nomatch hl.2) ⟨id, h⟩
  | lost hpc =>
    rw [hpc] at h
    exact hset (fun hl => nomatch hl.2) ⟨id, h⟩
  | addedPost ret hpc =>
    rw [hpc] at h
    exact absurd (hcalled ret rfl) h.1
  | addedLost ret hpc =>
    rw [hpc] at h
    exact absurd (hcalled ret rfl) h.1
  | addedMm ret hpc =>
    rw [hpc] at h
    refine hset (fun hl => ⟨⟨hl.1, by rw [hpc]; rfl⟩, rfl⟩) ?_
    cases hpost : r.postMm with
    | none => exact absurd (hcalled ret rfl) (h.1 hpost)
    | some p => exact ⟨p, rfl, by simpa [hpost] using h.2⟩
  | addedLate ret ret₁ post pid comm hpc =>
    rw [hpc] at h
    exact absurd (hcalled ret rfl) h.1
  | unlinkNone ret hpc hold hpost =>
    rw [hpc] at h
    obtain ⟨p, hp, -⟩ := h
    exact absurd (hp.symm.trans hpost) nofun
  | unlinkSame ret p hpc hold hpost hmm =>
    rw [hpc] at h
    obtain ⟨p', hp', hm⟩ := h
    cases hpost.symm.trans hp'
    exact .inr ⟨⟨ret, hpc⟩, hmm.symm.trans hm⟩
  | unlinkLate ret p hpc hold hpost hmm =>
    rw [hpc] at h
    obtain ⟨p', hp', hm⟩ := h
    cases hpost.symm.trans hp'
    exact hset (fun hl => nomatch hl.2) ⟨id, hm⟩
  | keep old hpc hold =>
    rw [hpc] at h
    obtain ⟨p, hp, -⟩ := h
    exact absurd (hold.symm.trans (hok.post (by simp [hp])).1) nofun
  | delete old hpc hold =>
    rw [hpc] at h
    obtain ⟨p, hp, -⟩ := h
    exact absurd (hold.symm.trans (hok.post (by simp [hp])).1) nofun
  | rekeyFail ret old shared hpc hold hret =>
    rw [hpc] at h
    obtain ⟨p, hp, -⟩ := h
    exact absurd (hold.symm.trans (hok.post (by simp [hp])).1) nofun
  | deleted hpc =>
    rw [hpc] at h
    exact h.elim
  | putOld hpc =>
    rw [hpc] at h
    exact h.elim
  | finish hpc =>
    rw [hpc] at h
    exact h.elim

/-- A worker in a call goes on when the call has returned. -/
lemma WorkRule.of_calling (hw : s.WorkRule b r w s') (hpc : r.pc.calling = true) :
    (∃ ret, w = .added ret) ∨ w = .deleted := by
  cases hw with
  | addedPost ret | addedLost ret | addedMm ret | addedLate ret => exact .inl ⟨ret, rfl⟩
  | deleted => exact .inr rfl
  | wait h | addMm h | wake _ h | adopt _ h | lost h | unlinkNone _ h | unlinkSame _ _ h
  | unlinkLate _ _ h | keep _ h | delete _ h | rekeyFail _ _ _ h | putOld h | finish h =>
    rw [h] at hpc
    cases hpc

lemma registered_of_step {act : HandoffAct} (hstep : s.step act = some s')
    (hact : act.isHandler = true ∨ ∃ b w, act = .work b w) : s'.registered = s.registered := by
  cases rule_of_step hstep with
  | discard => rcases hact with hact | ⟨b, w, hact⟩ <;> cases hact
  | unregister => rcases hact with hact | ⟨b, w, hact⟩ <;> cases hact
  | dropPin => rcases hact with hact | ⟨b, w, hact⟩ <;> cases hact
  | requeue => rfl
  | rekey => rfl
  | cloneSchedule => rfl
  | work a r w s' hr hw => exact hw.frame.2.2.2.2.2.2
  | _ => rfl

section ExecRet

variable {x : InstId} {rc : ℤ} {pid : ℤ} {comm : String} {jit : Bool} {addr : Option ℕ}

/-- A successful exec out of a pinned mm queues its new image. -/
lemma execRet_of_pinned {old : Ref} {slot : Option PinSlot}
    (hstep : s.step (.execRet x 0 (some m) pid comm jit addr) = some s')
    (hx : s.execs x = some (.pinned old slot)) (hm : old.mm ≠ m) (haddr : addr.isSome = true) :
    ∃ b r, s'.reqs b = some r ∧ r.oldMm = some old ∧ r.pc = .queued ∧ r.postMm = none ∧
      r.mm.mm = m := by
  cases rule_of_step hstep with
  | rekey _ _ _ _ _ b _ _ _ hx' _ hb =>
    cases hx.symm.trans hx'
    exact ⟨b, _, Function.update_self _ _ _, rfl, rfl, rfl, rfl⟩
  | rekeySame _ _ _ _ _ _ _ _ hx' =>
    cases hx.symm.trans hx'
    exact absurd rfl hm
  | rekeyFailed _ _ _ _ _ _ _ _ _ _ _ hfail => exact absurd (hfail rfl) nofun
  | rekeyDropped => cases haddr
  | retPlain _ _ _ _ _ _ _ _ hx' => cases hx.symm.trans hx'
  | retPost _ _ _ _ _ _ _ _ _ _ hx' => cases hx.symm.trans hx'
  | retGone _ _ _ _ _ _ _ _ _ hx' => cases hx.symm.trans hx'

/-- The return handler is done with a pinned mm in one step. -/
lemma execs_of_pinned {old : Ref} {slot : Option PinSlot}
    (hstep : s.step (.execRet x rc (some m) pid comm jit addr) = some s')
    (hx : s.execs x = some (.pinned old slot)) : s'.execs x = none := by
  cases rule_of_step hstep with
  | retGone _ _ _ _ _ _ _ _ _ hx' => cases hx.symm.trans hx'
  | _ => exact Function.update_self _ _ _

/-- An exec that has claimed a request posts its new image there, if it is still linked. -/
lemma execRet_of_claimed {c : ExecClaim} (hlink : s.Linked)
    (hstep : s.step (.execRet x rc (some m) pid comm jit addr) = some s')
    (hx : s.execs x = some (.claimed c)) :
    (s'.execs x = none ∧ ∃ r r' p, s.reqs c.pendingReq = some r ∧ r.IsLinked ∧
      r.reqId = c.pendingId ∧ s'.reqs c.pendingReq = some r' ∧ r.Kept r' ∧ r'.postMm = some p ∧
      p.mm = m) ∨ ∃ ref, s'.execs x = some (.requeue c ref pid comm) ∧ ref.mm = m := by
  cases rule_of_step hstep with
  | retPost _ _ _ _ _ _ _ _ r _ hx' hb hr hid =>
    cases hx.symm.trans hx'
    obtain ⟨r', hr', hl⟩ := (hlink.mem_iff _).mp hb
    cases hr.symm.trans hr'
    exact .inl ⟨Function.update_self _ _ _, r, _, _, hr, hl, hid, Function.update_self _ _ _,
      ⟨rfl, rfl, rfl, rfl⟩, rfl, rfl⟩
  | retGone _ _ _ _ _ _ _ _ _ hx' =>
    cases hx.symm.trans hx'
    exact .inr ⟨_, Function.update_self _ _ _, rfl⟩
  | retPlain _ _ _ _ _ _ _ _ hx' => cases hx.symm.trans hx'
  | rekey _ _ _ _ _ _ _ _ _ hx' => cases hx.symm.trans hx'
  | rekeySame _ _ _ _ _ _ _ _ hx' => cases hx.symm.trans hx'
  | rekeyFailed _ _ _ _ _ _ _ _ _ _ hx' => cases hx.symm.trans hx'
  | rekeyDropped _ _ _ _ _ _ _ _ hx' => cases hx.symm.trans hx'

end ExecRet

section ExecEntry

variable {x : InstId} {pid : ℤ} {comm : String} {tgid : ℤ}

/-- `ac_exec_entry` pins an mm that is registered. -/
lemma pinned_of_entryPin (hstep : s.step (.entryPin x m pid comm) = some s') :
    ∃ old slot, s'.execs x = some (.pinned old slot) := by
  cases rule_of_step hstep with
  | pin => exact ⟨_, _, Function.update_self _ _ _⟩
  | pinUntracked => exact ⟨_, _, Function.update_self _ _ _⟩

/-- `ac_exec_entry` claims a request if there is one to claim. -/
lemma claimed_of_entryScan (hstep : s.step (.entryScan x m tgid) = some s')
    (hb : b ∈ s.pending) (hr : s.reqs b = some r) (hclaim : r.claimable m tgid = true) :
    ∃ c, s'.execs x = some (.claimed c) := by
  cases rule_of_step hstep with
  | scanPlain _ _ _ hx hnone =>
    have hfind := List.findSome?_eq_none_iff.mp hnone b hb
    simp [hr, hclaim] at hfind
  | scanClaim => exact ⟨_, Function.update_self _ _ _⟩

end ExecEntry

end Handoff

/-! ### Who covers a process -/

namespace Inherit

/-- A parent in `ac_clone_ret` for the process `q` that runs in `m`: it has not read the mm of its
child yet, or it has read `m`. -/
def Bears (s : Inherit) (q : ℤ) (m : ℕ) : ClonePc → Prop
  | .body => True
  | .checked => True
  | .found u => u < s.nextTask ∧ ∀ c, s.tasks u = some c → c.tgid = q ∧ c.pid = q
  | .got y => ∃ i, s.h.clones y = some i ∧ i.cpid = q ∧ i.childMm.mm = m

/-- An exec that is past `exec_mmap` into `m` and whose return handler will queue or post `m`. -/
def Carries (s : Inherit) (th : Thread) (x : InstId) (m : ℕ) : ExecPc → Prop
  | .mapped => th.pid = th.tgid ∧
    ((∃ old slot, s.h.execs x = some (.pinned old slot) ∧ old.mm ≠ m) ∨
      ∃ c, s.h.execs x = some (.claimed c))
  | .requeue true _ => ∃ c ref comm, s.h.execs x = some (.requeue c ref th.tgid comm) ∧ ref.mm = m
  | _ => False

/-- The instance has pinned the mm of its task or claimed a request. -/
def Armed (s : Inherit) (x : InstId) : Prop :=
  (∃ old slot, s.h.execs x = some (.pinned old slot)) ∨ ∃ c, s.h.execs x = some (.claimed c)

/-- The process `q` in the address space `m` is registered, or somebody is on the way to do it. -/
inductive Covered (s : Inherit) (q : ℤ) (m : ℕ) : Prop where
  | entry (h : s.reg.Covers m)
  | request (b : ℕ) (r : AcProtAddReq) (hr : s.h.reqs b = some r)
      (howner : r.IsLinked → r.newPid = q) (hwill : r.WillAdd (s.call b ≠ none) m)
  | birth (t : ℕ) (th : Thread) (pc : ClonePc) (ht : s.tasks t = some th)
      (htree : th.tree = true) (hsys : th.sys = .clone q pc) (hbears : s.Bears q m pc)
  | exec (t : ℕ) (th : Thread) (x : InstId) (pc : ExecPc) (ht : s.tasks t = some th)
      (htgid : th.tgid = q) (hsys : th.sys = .exec (some x) pc) (hcarries : s.Carries th x m pc)

/-! ### Steps that do not come too early -/

/-- A live task of the tree belongs to the process. -/
def inTree (s : Inherit) (q : ℤ) : Bool := s.anyTask fun th => th.tree && th.tgid == q

/-- A parent in the tree has yet to read the mm of the process. -/
def unread (s : Inherit) (q : ℤ) : Bool :=
  s.anyTask fun th => th.tree &&
    match th.sys with
    | .clone child .body => child == q
    | .clone child .checked => child == q
    | .clone child (.found u) =>
      child == q && (s.tasks u).any fun c => c.tgid == q && c.pid == q
    | _ => false

/-- A request in `ac_pending_forks` waits for the process in this mm: it was queued for it, or an
exec of the process has handed the mm over to it. -/
def awaited (s : Inherit) (m : ℕ) (q : ℤ) : Bool :=
  s.h.pending.any fun b => (s.h.reqs b).any fun r =>
    (r.mm.mm == m && r.newPid == q) ||
      (r.claimed && r.postMm.any (fun p => p.mm == m) && r.postPid == q)

/-- What each task meets on its way into an exec: whether its mm is registered when `ac_exec_entry`
looks it up, or else whether a request waits for its process when `ac_exec_entry` goes through
`ac_pending_forks`. -/
def noteEntry (s : Inherit) : InheritAct → (ℕ → Bool) → ℕ → Bool
  | .task t (.execEntry _), met =>
    Function.update met t ((s.tasks t).any fun th => s.protects th.mm)
  | .task t .execScan, met =>
    Function.update met t ((s.tasks t).any fun th => s.awaited th.mm th.tgid)
  | _, met => met

/-- A step of a task that does not come before something else had to happen. In `ac_clone_ret` the
parent is registered and the child can be found, if the child is still there; an exec is not past
`exec_mmap` unless the task has `met` an entry for its mm or a request for its process on the way
in, or a parent has yet to read the new mm; a pid or a request tag is not given out again while a
handoff refers to it; and nobody calls `ADD_PROC` for a process of the tree that is waiting to be
registered. -/
def taskInTime (s : Inherit) (met : Bool) (th : Thread) : TaskAct → Bool
  | .fork pid _ _ => s.pidFresh pid
  | .cloneCheck =>
    match th.sys with
    | .clone child .body => s.protects th.mm || !(th.tree && s.inTree child)
    | _ => true
  | .cloneFind =>
    match th.sys with
    | .clone child .checked => (s.findTask child).isSome || !(th.tree && s.inTree child)
    | _ => true
  | .cloneGet _ =>
    match th.sys with
    | .clone child (.found u) => (s.tasks u).isSome || !(th.tree && s.inTree child)
    | _ => true
  | .execMmap _ => !th.tree || s.unread th.tgid || met
  | .execRet _ _ => s.tagFresh th
  | .addProc _ => s.protects th.mm || !s.anyTask fun u => u.tree && u.mm == th.mm
  | _ => true

def inTime (s : Inherit) (met : ℕ → Bool) : InheritAct → Bool
  | .task t act => (s.tasks t).all fun th => s.taskInTime (met t) th act
  | _ => true

variable {s s' : Inherit} {a : InheritAct} {t u : ℕ} {th uh : Thread} {q : ℤ} {m : ℕ}
variable {met : ℕ → Bool}

lemma taskInTime_of_inTime {act : TaskAct} (hin : s.inTime met (.task t act) = true)
    (ht : s.tasks t = some th) : s.taskInTime (met t) th act = true := by
  simpa [inTime, ht] using hin

lemma taskAssumed_of_assumed {act : TaskAct} (ha : s.assumed (.task t act) = true)
    (ht : s.tasks t = some th) : s.taskAssumed th act = true := by
  simpa [assumed, ht] using ha

lemma keepsOwners_of_inTime (hin : s.inTime met a = true) (hstep : s.step a = some s') :
    s.keepsOwners a = true := by
  cases a with
  | task t act =>
    obtain ⟨th, ht, -⟩ := Option.bind_eq_some_iff.mp hstep
    have hin := taskInTime_of_inTime hin ht
    cases act with
    | fork => exact hin
    | execRet => simpa [keepsOwners, taskInTime, ht] using hin
    | _ => rfl
  | _ => rfl

lemma Inv.inTree_of_task (h : s.Inv) (hu : s.tasks u = some uh) (htree : uh.tree = true) :
    s.inTree uh.tgid = true :=
  h.anyTask_iff.mpr ⟨u, uh, hu, by simp [htree]⟩

/-! ### What a step leaves alone -/

/-- A step of somebody else leaves a task where it is, with its instances. -/
lemma others_of_step (h : s.Inv) (hi : s.InstsOk) (hstep : s.step a = some s')
    (ht : s.tasks t = some th) (hne : ∀ act, a ≠ .task t act) :
    (∃ tree, s'.tasks t = some { th with tree := tree } ∧ (th.tree = true → tree = true)) ∧
      (∀ y, th.sys.got = some y → s'.h.clones y = s.h.clones y) ∧
      ∀ x, th.sys.inst = some x → s'.h.execs x = s.h.execs x := by
  have hsame : s.tasks t = some { th with tree := th.tree } := ht
  cases taskEffect_of_step hstep with
  | quiet htasks hnext hmm hexecs hclones =>
    exact ⟨⟨th.tree, htasks ▸ hsame, id⟩, fun y _ => congrFun hclones y,
      fun x _ => congrFun hexecs x⟩
  | acts t' th' sys h' hacts heq =>
    subst heq
    have htt : t ≠ t' := by
      rintro rfl
      exact hne _ rfl
    refine ⟨⟨th.tree, (Function.update_of_ne htt _ _).trans hsame, id⟩, fun y hy => ?_,
      fun x hx => ?_⟩
    · exact hi.clones.res_eq { th' with sys := sys } hacts.task
        (fun y hy => (hacts.got y hy).2) hacts.clones ht htt hy
    · exact hi.execs.res_eq { th' with sys := sys } hacts.task
        (fun x hx => (hacts.inst x hx).2.imp_right And.left) hacts.execs ht htt hx
  | fork t' th' pid kind probed ht' hsys hpid heq =>
    subst heq
    have htt : t ≠ t' := by
      rintro rfl
      exact hne _ rfl
    refine ⟨⟨th.tree, ?_, id⟩, fun _ _ => rfl, fun _ _ => rfl⟩
    exact (Function.update_of_ne (h.tasks t th ht).1.ne _ _).trans
      ((Function.update_of_ne htt _ _).trans hsame)
  | execMmap t' th' x comm ht' hsys halone heq =>
    subst heq
    have htt : t ≠ t' := by
      rintro rfl
      exact hne _ rfl
    exact ⟨⟨th.tree, (Function.update_of_ne htt _ _).trans hsame, id⟩, fun _ _ => rfl,
      fun _ _ => rfl⟩
  | exit t' th' ht' hsys heq =>
    subst heq
    have htt : t ≠ t' := by
      rintro rfl
      exact hne _ rfl
    exact ⟨⟨th.tree, (Function.update_of_ne htt _ _).trans hsame, id⟩, fun _ _ => rfl,
      fun _ _ => rfl⟩
  | root t' th' ht' hprot heq =>
    subst heq
    refine ⟨⟨th.tree || th.tgid == th'.tgid, by simp [ht], fun htree => by simp [htree]⟩,
      fun _ _ => rfl, fun _ _ => rfl⟩

/-- No step unregisters a probe. -/
lemma registered_of_step (hstep : s.step a = some s') : s'.h.registered = s.h.registered := by
  cases workEffect_of_step hstep with
  | quiet hh hcall => rw [hh]
  | handler act hh hact hcur hreg hcall => exact Handoff.registered_of_step hh (.inl hact)
  | work b w r hr hreads hw hh hreg hcall =>
    exact Handoff.registered_of_step hh (.inr ⟨b, w, rfl⟩)
  | call b r act hr hnone hact hreg hh hcall => rw [hh]

/-- A task keeps its number and its process; an exec may give it the pid of the process. -/
lemma pid_of_step (hstep : s.step a = some s') :
    s.nextTask ≤ s'.nextTask ∧ ∀ u uh', s'.tasks u = some uh' → u < s.nextTask →
      ∃ uh, s.tasks u = some uh ∧ uh'.tgid = uh.tgid ∧ (uh'.pid = uh.pid ∨ uh'.pid = uh.tgid) := by
  have hsame : ∀ u uh, s.tasks u = some uh → u < s.nextTask →
      ∃ vh, s.tasks u = some vh ∧ uh.tgid = vh.tgid ∧ (uh.pid = vh.pid ∨ uh.pid = vh.tgid) :=
    fun u uh hu _ => ⟨uh, hu, rfl, .inl rfl⟩
  cases taskEffect_of_step hstep with
  | quiet htasks hnext hmm hexecs hclones => exact ⟨hnext.ge, htasks ▸ hsame⟩
  | acts t th sys h' hacts heq =>
    subst heq
    refine ⟨le_refl _, PartialMap.forall_update (fun u uh _ => hsame u uh) fun uh huh _ => ?_⟩
    cases huh
    exact ⟨th, hacts.task, rfl, .inl rfl⟩
  | fork t th pid kind probed ht hsys hpid heq =>
    subst heq
    refine ⟨Nat.le_succ _, forall_fork (fun hlt => absurd hlt (lt_irrefl _)) (fun _ => ?_)
      fun u uh _ => hsame u uh⟩
    exact ⟨th, ht, rfl, .inl rfl⟩
  | execMmap t th x comm ht hsys halone heq =>
    subst heq
    refine ⟨le_refl _, PartialMap.forall_update (fun u uh _ => hsame u uh) fun uh huh _ => ?_⟩
    cases huh
    exact ⟨th, ht, rfl, .inr rfl⟩
  | exit t th ht hsys heq =>
    subst heq
    exact ⟨le_refl _, PartialMap.forall_update (fun u uh _ => hsame u uh) nofun⟩
  | root t th ht hprot heq =>
    subst heq
    refine ⟨le_refl _, fun u uh' hu' _ => ?_⟩
    obtain ⟨uh, hu, rfl⟩ := Option.map_eq_some_iff.mp hu'
    exact ⟨uh, hu, rfl, .inl rfl⟩

lemma Bears.step {pc : ClonePc} (hb : s.Bears q m pc) (hstep : s.step a = some s')
    (hclones : ∀ y, pc = .got y → s'.h.clones y = s.h.clones y) : s'.Bears q m pc := by
  cases pc with
  | body => trivial
  | checked => trivial
  | found v =>
    obtain ⟨hnext, hpids⟩ := pid_of_step hstep
    refine ⟨hb.1.trans_le hnext, fun c' hc' => ?_⟩
    obtain ⟨c, hc, htgid, hpid⟩ := hpids v c' hc' hb.1
    obtain ⟨hq, hp⟩ := hb.2 c hc
    exact ⟨htgid.trans hq, hpid.elim (·.trans hp) (·.trans hq)⟩
  | got y =>
    obtain ⟨i, hi, hrest⟩ := hb
    exact ⟨i, (hclones y rfl).trans hi, hrest⟩

/-! ### The invariant -/

/-- What holds in every state of a run whose steps are assumed and in time. -/
structure Good (s : Inherit) (met : ℕ → Bool) : Prop where
  inv : s.Inv
  registered : ∀ k, s.h.registered k = true
  tagged : s.h.Tagged
  tasks : s.TasksOk
  insts : s.InstsOk
  owners : s.Owners
  workers : s.WorkersOk
  /-- an entry of the tree that is claimed is claimed by a worker -/
  claimed : ∀ t th i, s.tasks t = some th → th.tree = true → s.reg.ClaimAt i th.mm →
    ∃ b c, s.call b = some c ∧ CallAt s.reg.calls c i
  /-- an exec that met an entry or a request has pinned or claimed it -/
  ready : ∀ t th x, s.tasks t = some th → met t = true → th.sys = .exec x .inside →
    ∃ z, x = some z ∧ s.Armed z
  covered : ∀ t th, s.tasks t = some th → th.tree = true → th.sys.isDoomed = false →
    s.Covered th.tgid th.mm

namespace Good

/-! ### Coverage by a request -/

lemma request_step (hg : s.Good met) (ha : s.assumed a = true) (hin : s.inTime met a = true)
    (hstep : s.step a = some s') (hu : s.tasks u = some uh) {b : ℕ} {r : AcProtAddReq}
    (hr : s.h.reqs b = some r) (howner : r.IsLinked → r.newPid = uh.tgid)
    (hwill : r.WillAdd (s.call b ≠ none) uh.mm) : s'.Covered uh.tgid uh.mm := by
  cases workEffect_of_step hstep with
  | quiet hh hcall => exact .request b r (hh ▸ hr) howner (by rw [hcall]; exact hwill)
  | handler act hh hact hcur hreg hcall =>
    obtain ⟨r', hr', hkept, hpost⟩ := Handoff.kept_of_step hg.inv.h.linked hh hact b r hr
    refine .request b r' hr' (fun hl => ?_) ?_
    · rw [hkept.newPid]
      exact howner ⟨hkept.oldMm ▸ hl.1, hkept.pc ▸ hl.2⟩
    · rw [hcall]
      rcases hpost with hpost |
        ⟨x, rc, mm, pid, comm, jit, addr, c, p, rfl, hx, rfl, hl, hid, hp, rfl⟩
      · exact hwill.kept hkept hpost
      · -- the handoff is the current mm of the process, so that of `uh`
        obtain ⟨t, th, rfl, ht, hthx, hmm, -⟩ := hcur
        have hfresh : s.tagFresh th = true := taskInTime_of_inTime hin ht
        have htgid := hg.owners.newPid_of_claimed hg.tagged ht hthx hx hr hl hid hfresh
        rw [howner hl] at htgid
        rw [hg.tasks.mm u t uh th hu ht htgid, ← Option.some.inj hmm]
        exact AcProtAddReq.willAdd_of_post (hkept.pc ▸ hl.2) hp
  | work b' w r' hr' hreads hw hh hreg hcall =>
    by_cases hb : b = b'
    · subst hb
      cases hr.symm.trans hr'
      have hcalled : ∀ ret, w = .added ret → s.call b ≠ none := by
        rintro ret rfl hnone
        simp [workReads, callReturned, hnone] at hreads
      rcases hw.willAdd (hg.inv.h.linked.ok b r hr) hwill hcalled with
        ⟨q, hq, hlinked, hwill'⟩ | ⟨hadded, hmm⟩
      · refine .request b q hq (fun hl => ?_) ?_
        · rw [(hlinked hl).2]
          exact howner (hlinked hl).1
        · rw [hcall, Function.update_self]
          simpa using hwill'
      · have hcovers := hg.workers.passed b r hr (.inl hadded)
        rw [hmm] at hcovers
        exact .entry (hreg ▸ hcovers)
    · refine .request b r ((hw.reqs_of_ne hb).trans hr) howner ?_
      rw [hcall, Function.update_of_ne hb]
      exact hwill
  | call b' r' act hr' hnone hact hreg hh hcall =>
    by_cases hb : b = b'
    · subst hb
      cases hr.symm.trans hr'
      rcases hwill.call (s'.call b ≠ none) hact with
        ⟨f, v, pid, comm, jit, hf, hv, rfl⟩ | hwill'
      · refine .entry (hg.workers.covers_workCall ha hr hact ?_ hreg)
        exact ⟨.req b f, v, (Handoff.RefsOk.held_of_reqs hr f).trans hf, hv⟩
      · exact .request b r (hh ▸ hr) howner hwill'
    · refine .request b r (hh ▸ hr) howner ?_
      rw [hcall, Function.update_of_ne hb]
      exact hwill

/-! ### Coverage by a parent -/

/-- The parent's own step. -/
lemma birth_self (hg : s.Good met) {act : TaskAct} (ha : s.assumed (.task t act) = true)
    (hin : s.inTime met (.task t act) = true) (hstep : s.step (.task t act) = some s')
    (hu : s.tasks u = some uh) (hutree : uh.tree = true) (ht : s.tasks t = some th)
    (htree : th.tree = true) {pc : ClonePc} (hsys : th.sys = .clone uh.tgid pc)
    (hb : s.Bears uh.tgid uh.mm pc) : s'.Covered uh.tgid uh.mm := by
  have hinTree := hg.inv.inTree_of_task hu hutree
  have hhere : ∀ {th' : Thread} {sys : Sys}, s.tasks t = some th' → th'.sys = sys →
      Sys.clone uh.tgid pc = sys := by
    rintro th' sys ht' rfl
    rw [← hsys, Option.some.inj (ht.symm.trans ht')]
  have ha := taskAssumed_of_assumed ha ht
  have hin := taskInTime_of_inTime hin ht
  cases rule_of_step hstep with
  | root _ th' ht' hprot =>
    refine .birth t { th with tree := th.tree || th.tgid == th'.tgid } pc (by simp [ht])
      (by simp [htree]) hsys (hb.step hstep fun _ _ => rfl)
  | pinForeign _ th' ht' => exact .birth t th pc ht htree hsys (hb.step hstep fun _ _ => rfl)
  | addProc _ th' jit reg' ht' hreg =>
    exact .birth t th pc ht htree hsys (hb.step hstep fun _ _ => rfl)
  | cloneIgnore _ th' child ht' hsys' hprot =>
    cases ht.symm.trans ht'
    cases hsys.symm.trans hsys'
    simp [taskInTime, hsys, hprot, htree, hinTree] at hin
  | cloneCheck _ th' child ht' hsys' hprot =>
    cases ht.symm.trans ht'
    cases hsys.symm.trans hsys'
    exact .birth t { th with sys := .clone uh.tgid .checked } .checked
      (Function.update_self _ _ _) htree rfl trivial
  | cloneLost _ th' child ht' hsys' hfind =>
    cases ht.symm.trans ht'
    cases hsys.symm.trans hsys'
    simp [taskInTime, hsys, hfind, htree, hinTree] at hin
  | cloneFind _ th' child v ht' hsys' hfind =>
    cases ht.symm.trans ht'
    cases hsys.symm.trans hsys'
    have hrange := List.mem_of_find?_eq_some hfind
    obtain ⟨c, hc, hpid⟩ : ∃ c, s.tasks v = some c ∧ c.pid = uh.tgid := by
      simpa [Option.any_eq_true] using List.find?_some hfind
    have hbears : s.Bears uh.tgid uh.mm (.found v) := by
      refine ⟨List.mem_range.mp hrange, fun c' hc' => ?_⟩
      cases hc.symm.trans hc'
      exact ⟨hg.tasks.pid v u c uh hc hu hpid, hpid⟩
    exact .birth t { th with sys := .clone uh.tgid (.found v) } (.found v)
      (Function.update_self _ _ _) htree rfl (hbears.step hstep nofun)
  | cloneGone _ th' child v y ht' hsys' hv =>
    cases ht.symm.trans ht'
    cases hsys.symm.trans hsys'
    simp [taskInTime, hsys, hv, htree, hinTree] at hin
  | cloneSame _ th' child v y c h' ht' hsys' hv hmm hh =>
    cases ht.symm.trans ht'
    cases hsys.symm.trans hsys'
    -- the child shares the mm of its parent, which is registered
    rw [← hg.tasks.mm v u c uh hv hu (hb.2 c hv).1, hmm]
    exact .entry (hg.workers.checked t th ht (by rw [hsys]; rfl))
  | cloneGet _ th' child v y c h' ht' hsys' hv hmm hh =>
    cases ht.symm.trans ht'
    cases hsys.symm.trans hsys'
    obtain ⟨hy, rfl⟩ := Handoff.cloneGet_of_ne hmm hh
    refine .birth t { th with sys := .clone uh.tgid (.got y) } (.got y)
      (Function.update_self _ _ _) htree rfl ⟨_, Function.update_self _ _ _, (hb.2 c hv).2, ?_⟩
    exact hg.tasks.mm v u c uh hv hu (hb.2 c hv).1
  | cloneSchedule _ th' child y addr h' ht' hsys' hh =>
    cases ht.symm.trans ht'
    cases hsys.symm.trans hsys'
    obtain ⟨i, hi, hpid, hmm⟩ := hb
    cases Handoff.rule_of_step hh with
    | cloneSchedule _ c _ _ _ b hy hb =>
      cases hi.symm.trans hy
      refine .request b _ (Function.update_self _ _ _) (fun _ => hpid) ?_
      rw [← hmm]
      exact AcProtAddReq.willAdd_of_queued rfl rfl
    | cloneDropped => cases ha
  | fork _ _ _ _ _ ht' hsys' | execMissed _ _ ht' hsys' | execPin _ _ _ _ ht' hsys'
  | execMiss _ _ _ _ ht' hsys' | execScan _ _ _ _ ht' hsys' | execMmap _ _ _ _ ht' hsys'
  | execDone _ _ _ _ _ ht' hsys' | execRet _ _ _ _ _ _ _ ht' hsys'
  | execGone _ _ _ _ _ _ _ ht' hsys' | execRequeue _ _ _ _ _ _ _ ht' hsys' =>
    cases hhere ht' hsys'
  | exit _ _ ht' hsys' => rcases hsys' with hsys' | hsys' <;> cases hhere ht' hsys'

lemma birth_step (hg : s.Good met) (ha : s.assumed a = true) (hin : s.inTime met a = true)
    (hstep : s.step a = some s') (hu : s.tasks u = some uh) (hutree : uh.tree = true)
    (ht : s.tasks t = some th) (htree : th.tree = true) {pc : ClonePc}
    (hsys : th.sys = .clone uh.tgid pc) (hb : s.Bears uh.tgid uh.mm pc) :
    s'.Covered uh.tgid uh.mm := by
  by_cases hself : ∃ act, a = .task t act
  · obtain ⟨act, rfl⟩ := hself
    exact hg.birth_self ha hin hstep hu hutree ht htree hsys hb
  · obtain ⟨⟨tree, ht', htree'⟩, hclones, -⟩ := others_of_step hg.inv hg.insts hstep ht
      fun act heq => hself ⟨act, heq⟩
    refine .birth t _ pc ht' (htree' htree) hsys (hb.step hstep fun y hy => hclones y ?_)
    rw [hsys, hy]
    rfl

/-! ### Coverage by an exec -/

/-- The step of the task in the exec. -/
lemma exec_self (hg : s.Good met) {act : TaskAct} (ha : s.assumed (.task t act) = true)
    (hin : s.inTime met (.task t act) = true) (hstep : s.step (.task t act) = some s')
    (ht : s.tasks t = some th) {x : InstId} {pc : ExecPc} (hsys : th.sys = .exec (some x) pc)
    (hc : s.Carries th x th.mm pc)
    (hd : ∀ th', s'.tasks t = some th' → th'.sys.isDoomed = false) :
    s'.Covered th.tgid th.mm := by
  have hhere : ∀ {th' : Thread} {sys : Sys}, s.tasks t = some th' → th'.sys = sys →
      Sys.exec (some x) pc = sys := by
    rintro th' sys ht' rfl
    rw [← hsys, Option.some.inj (ht.symm.trans ht')]
  have ha := taskAssumed_of_assumed ha ht
  have hin := taskInTime_of_inTime hin ht
  cases rule_of_step hstep with
  | root _ th' ht' hprot =>
    exact .exec t { th with tree := th.tree || th.tgid == th'.tgid } x pc (by simp [ht]) rfl hsys hc
  | pinForeign _ th' ht' => exact .exec t th x pc ht rfl hsys hc
  | addProc _ th' jit reg' ht' hreg => exact .exec t th x pc ht rfl hsys hc
  | execMmap _ th' x' comm ht' hsys' halone =>
    cases ht.symm.trans ht'
    cases hsys.symm.trans hsys'
    exact hc.elim
  | execRet _ th' x' mapped rc addr h' ht' hsys' hrc hh hx =>
    cases ht.symm.trans ht'
    cases hsys.symm.trans hsys'
    cases mapped with
    | false => exact hc.elim
    | true =>
      have hrc : rc = 0 := by
        by_contra hne
        have := hd _ (Function.update_self _ _ _)
        simp [afterExec, hne, Sys.isDoomed] at this
      subst hrc
      obtain ⟨hpid, ⟨old, slot, hold, hne⟩ | ⟨c, hclaim⟩⟩ := hc
      · obtain ⟨b, r, hr, holdMm, hqueued, hpost, hmm⟩ := Handoff.execRet_of_pinned hh hold hne ha
        refine .request b r hr (fun hl => by cases holdMm.symm.trans hl.1) ?_
        rw [← hmm]
        exact AcProtAddReq.willAdd_of_queued hqueued hpost
      · rcases Handoff.execRet_of_claimed hg.inv.h.linked hh hclaim with
          ⟨-, r, r', p, hr, hl, hid, hr', hkept, hp, hmm⟩ | ⟨ref, href, -⟩
        · refine .request c.pendingReq r' hr' (fun _ => ?_) ?_
          · rw [hkept.newPid]
            exact hg.owners.newPid_of_claimed hg.tagged ht (by rw [hsys]; rfl) hclaim hr hl hid hin
          · rw [← hmm]
            exact AcProtAddReq.willAdd_of_post (hkept.pc ▸ hl.2) hp
        · cases href.symm.trans hx
  | execGone _ th' x' mapped rc addr h' ht' hsys' hrc hh hx =>
    cases ht.symm.trans ht'
    cases hsys.symm.trans hsys'
    cases mapped with
    | false => exact hc.elim
    | true =>
      obtain ⟨c, ref, href, hmm⟩ : ∃ c ref, h'.execs x = some (.requeue c ref th.pid th.comm) ∧
          ref.mm = th.mm := by
        obtain ⟨-, ⟨old, slot, hold, -⟩ | ⟨c, hclaim⟩⟩ := hc
        · exact absurd (Handoff.execs_of_pinned hh hold) hx
        · rcases Handoff.execRet_of_claimed hg.inv.h.linked hh hclaim with ⟨hnone, -⟩ |
            ⟨ref, href, hmm⟩
          · exact absurd hnone hx
          · exact ⟨c, ref, href, hmm⟩
      refine .exec t _ x _ (Function.update_self _ _ _) rfl rfl ⟨c, ref, th.comm, ?_, hmm⟩
      rw [← hc.1]
      exact href
  | execRequeue _ th' x' mapped dying addr h' ht' hsys' hh =>
    cases ht.symm.trans ht'
    cases hsys.symm.trans hsys'
    cases mapped with
    | false => exact hc.elim
    | true =>
      obtain ⟨c, ref, comm, hx, hmm⟩ := hc
      cases Handoff.rule_of_step hh with
      | requeue _ c' mm pid comm' b hx' hb =>
        cases hx.symm.trans hx'
        refine .request b _ (Function.update_self _ _ _) (fun _ => rfl) ?_
        rw [← hmm]
        exact AcProtAddReq.willAdd_of_queued rfl rfl
      | requeueDropped => cases ha
  | execScan _ _ _ _ ht' hsys' _ =>
    cases hhere ht' hsys'
    exact hc.elim
  | fork _ _ _ _ _ ht' hsys' | cloneIgnore _ _ _ ht' hsys' | cloneCheck _ _ _ ht' hsys'
  | cloneLost _ _ _ ht' hsys' | cloneFind _ _ _ _ ht' hsys' | cloneGone _ _ _ _ _ ht' hsys'
  | cloneSame _ _ _ _ _ _ _ ht' hsys' | cloneGet _ _ _ _ _ _ _ ht' hsys'
  | cloneSchedule _ _ _ _ _ _ ht' hsys' | execMissed _ _ ht' hsys' | execPin _ _ _ _ ht' hsys'
  | execMiss _ _ _ _ ht' hsys' | execDone _ _ _ _ _ ht' hsys' =>
    cases hhere ht' hsys'
  | exit _ _ ht' hsys' => rcases hsys' with hsys' | hsys' <;> cases hhere ht' hsys'

lemma exec_step (hg : s.Good met) (ha : s.assumed a = true) (hin : s.inTime met a = true)
    (hstep : s.step a = some s') (ht : s.tasks t = some th) {x : InstId} {pc : ExecPc}
    (hsys : th.sys = .exec (some x) pc) (hc : s.Carries th x th.mm pc)
    (hd : ∀ th', s'.tasks t = some th' → th'.sys.isDoomed = false) :
    s'.Covered th.tgid th.mm := by
  by_cases hself : ∃ act, a = .task t act
  · obtain ⟨act, rfl⟩ := hself
    exact hg.exec_self ha hin hstep ht hsys hc hd
  · obtain ⟨⟨tree, ht', -⟩, -, hexecs⟩ := others_of_step hg.inv hg.insts hstep ht
      fun act heq => hself ⟨act, heq⟩
    refine .exec t { th with tree := tree } x pc ht' rfl hsys ?_
    unfold Carries at hc ⊢
    rw [hexecs x (by rw [hsys]; rfl)]
    exact hc

/-! ### Every process of the tree stays covered -/

lemma Carries.isMapped {x : InstId} {pc : ExecPc} (hsys : th.sys = .exec (some x) pc)
    (hc : s.Carries th x m pc) : th.sys.isMapped = true := by
  rw [hsys]
  unfold Carries at hc
  split at hc
  · rfl
  · rfl
  · exact hc.elim

/-- A process that is covered and stays in its mm is covered after the step. -/
lemma covered_of_covered (hg : s.Good met) (ha : s.assumed a = true) (hin : s.inTime met a = true)
    (hstep : s.step a = some s') (hu : s.tasks u = some uh) (hutree : uh.tree = true)
    (hd : ∀ uh', s'.tasks u = some uh' → uh'.sys.isDoomed = false)
    (hc : s.Covered uh.tgid uh.mm) : s'.Covered uh.tgid uh.mm := by
  cases hc with
  | entry h => exact .entry (hg.workers.covers_step hg.inv ha hstep (.inl ⟨u, uh, hu, rfl⟩) h)
  | request b r hr howner hwill => exact hg.request_step ha hin hstep hu hr howner hwill
  | birth t th pc ht htree hsys hbears =>
    exact hg.birth_step ha hin hstep hu hutree ht htree hsys hbears
  | exec t th x pc ht htgid hsys hcarries =>
    obtain rfl := hg.tasks.alone t u th uh ht hu (Carries.isMapped hsys hcarries) htgid.symm
    cases ht.symm.trans hu
    exact hg.exec_step ha hin hstep ht hsys hcarries hd

/-- The exec of a process of the tree is seen, or its birth is. -/
lemma covered_execMmap (hg : s.Good met) {x : Option InstId} {comm : String}
    (ht : s.tasks t = some th) (hsys : th.sys = .exec x .inside) (htree : th.tree = true)
    (hin : s.taskInTime (met t) th (.execMmap comm) = true)
    (hstep : s.step (.task t (.execMmap comm)) = some (s.execMmap t th x comm)) :
    (s.execMmap t th x comm).Covered th.tgid s.nextMm := by
  have hin : s.unread th.tgid = true ∨ met t = true := by
    simpa [taskInTime, htree] using hin
  rcases hin with hunread | hmet
  · obtain ⟨v, vh, hv, hvh⟩ := hg.inv.anyTask_iff.mp hunread
    obtain ⟨hvtree, hvsys⟩ := Bool.and_eq_true_iff.mp hvh
    have hne : v ≠ t := by
      rintro rfl
      cases hv.symm.trans ht
      rw [hsys] at hvsys
      cases hvsys
    have hv' : (s.execMmap t th x comm).tasks v = some vh :=
      (Function.update_of_ne hne _ _).trans hv
    have hbirth : ∀ pc, vh.sys = .clone th.tgid pc → s.Bears th.tgid s.nextMm pc →
        (∀ y, pc ≠ .got y) → (s.execMmap t th x comm).Covered th.tgid s.nextMm :=
      fun pc hpc hb hy =>
        .birth v vh pc hv' hvtree hpc (hb.step hstep fun y heq => absurd heq (hy y))
    split at hvsys
    · next child hclone =>
      rw [beq_iff_eq] at hvsys
      exact hbirth .body (hvsys ▸ hclone) trivial nofun
    · next child hclone =>
      rw [beq_iff_eq] at hvsys
      exact hbirth .checked (hvsys ▸ hclone) trivial nofun
    · next child w hclone =>
      rw [Bool.and_eq_true, beq_iff_eq] at hvsys
      obtain ⟨hchild, hw⟩ := hvsys
      obtain ⟨c, hc, hcq⟩ : ∃ c, s.tasks w = some c ∧ c.tgid = th.tgid ∧ c.pid = th.tgid := by
        simpa [Option.any_eq_true] using hw
      refine hbirth (.found w) (hchild ▸ hclone) ⟨(hg.inv.tasks w c hc).1, fun c' hc' => ?_⟩ nofun
      cases hc.symm.trans hc'
      exact hcq
    · cases hvsys
  · obtain ⟨z, rfl, hz⟩ := hg.ready t th x ht hmet hsys
    refine .exec t _ z .mapped (Function.update_self _ _ _) rfl rfl ⟨rfl, ?_⟩
    refine hz.imp (fun ⟨old, slot, hold⟩ => ⟨old, slot, hold, ?_⟩) id
    -- a pinned mm is older than the new one
    obtain ⟨i, rfl⟩ := Option.ne_none_iff_exists'.mp (hg.inv.h.pins.tracked z old slot hold)
    have hpin := (hg.inv.h.pins.pinned z old i hold (hg.registered z.1)).1
    exact (hg.inv.lt_nextMm_of_held (p := .pin i) hpin).ne

lemma covered_step (hg : s.Good met) (ha : s.assumed a = true) (hin : s.inTime met a = true)
    (hstep : s.step a = some s') : ∀ u uh', s'.tasks u = some uh' → uh'.tree = true →
      uh'.sys.isDoomed = false → s'.Covered uh'.tgid uh'.mm := by
  -- a task of the tree that was there before
  have hold : ∀ (u : ℕ) (uh uh' : Thread), s.tasks u = some uh → s'.tasks u = some uh' →
      uh.tree = true → uh.sys.isDoomed = false → uh'.sys.isDoomed = false →
      s'.Covered uh.tgid uh.mm := by
    intro u uh uh' hu hu' htree hd hd'
    refine hg.covered_of_covered ha hin hstep hu htree (fun vh hvh => ?_)
      (hg.covered u uh hu htree hd)
    cases hu'.symm.trans hvh
    exact hd'
  intro u uh' hu' htree' hd'
  cases taskEffect_of_step hstep with
  | quiet htasks hnext hmm hexecs hclones => exact hold u uh' uh' (htasks ▸ hu') hu' htree' hd' hd'
  | acts t th sys h' hacts heq =>
    have hupd : Function.update s.tasks t (some { th with sys := sys }) u = some uh' := by
      rw [heq] at hu'
      exact hu'
    rcases PartialMap.eq_or_of_update hupd with ⟨rfl, hnew⟩ | ⟨-, hu⟩
    · cases hnew
      have hd : th.sys.isDoomed = false := by
        by_contra hne
        exact Bool.false_ne_true
          (hd'.symm.trans (hacts.doomed (Bool.eq_true_of_not_eq_false hne)))
      exact hold u th _ hacts.task hu' htree' hd hd'
    · exact hold u uh' uh' hu hu' htree' hd' hd'
  | fork t th pid kind probed ht hsys hpid heq =>
    have hprobed : probed = true := by
      have hboth : (probed && !s.claims th.mm) = true := taskAssumed_of_assumed ha ht
      exact (Bool.and_eq_true_iff.mp hboth).1
    have hupd : Function.update (Function.update s.tasks t
        (some { th with sys := .clone pid .body })) s.nextTask (some (s.child th pid kind)) u =
          some uh' := by
      rw [heq, hprobed] at hu'
      exact hu'
    have hparent : s'.tasks t = some { th with sys := .clone pid .body } := by
      rw [heq, hprobed]
      exact (Function.update_of_ne (hg.inv.tasks t th ht).1.ne _ _).trans
        (Function.update_self _ _ _)
    have hd : th.sys.isDoomed = false := by rw [hsys]; rfl
    rcases PartialMap.eq_or_of_update hupd with ⟨rfl, hnew⟩ | ⟨-, hu₁⟩
    · cases hnew
      by_cases hkind : kind = .thread
      · subst hkind
        exact hold t th _ ht hparent htree' hd rfl
      · refine .birth t _ .body hparent htree' ?_ trivial
        simp [child, hkind]
    · rcases PartialMap.eq_or_of_update hu₁ with ⟨rfl, hnew⟩ | ⟨-, hu⟩
      · cases hnew
        exact hold u th _ ht hu' htree' hd rfl
      · exact hold u uh' uh' hu hu' htree' hd' hd'
  | execMmap t th x comm ht hsys halone heq =>
    have hupd : Function.update s.tasks t (some { th with
        pid := th.tgid, mm := s.nextMm, comm := comm, sys := .exec x .mapped }) u = some uh' := by
      rw [heq] at hu'
      exact hu'
    rcases PartialMap.eq_or_of_update hupd with ⟨rfl, hnew⟩ | ⟨-, hu⟩
    · cases hnew
      subst heq
      exact hg.covered_execMmap ht hsys htree' (taskInTime_of_inTime hin ht) hstep
    · exact hold u uh' uh' hu hu' htree' hd' hd'
  | exit t th ht hsys heq =>
    have hupd : Function.update s.tasks t none u = some uh' := by
      rw [heq] at hu'
      exact hu'
    rcases PartialMap.eq_or_of_update hupd with ⟨-, hnone⟩ | ⟨-, hu⟩
    · cases hnone
    · exact hold u uh' uh' hu hu' htree' hd' hd'
  | root t th ht hprot heq =>
    obtain ⟨uh, hu, rfl⟩ : ∃ uh, s.tasks u = some uh ∧
        { uh with tree := uh.tree || uh.tgid == th.tgid } = uh' := by
      rw [heq] at hu'
      exact Option.map_eq_some_iff.mp hu'
    by_cases htree : uh.tree = true
    · exact hold u uh _ hu hu' htree hd' hd'
    · -- a process that joins the tree is the root, which is registered
      have htgid : uh.tgid = th.tgid := by simpa [htree] using htree'
      have hcovers := hg.workers.covers_of_protects ⟨t, th, ht, rfl⟩ hprot
      rw [← hg.tasks.mm u t uh th hu ht htgid] at hcovers
      exact .entry (hg.workers.covers_step hg.inv ha hstep (.inl ⟨u, uh, hu, rfl⟩) hcovers)

/-! ### Claims in the tree are the workers' -/

/-- A task of the tree is where one was before, or in a new mm, or in that of the root. -/
lemma tree_of_step (hg : s.Good met) (hstep : s.step a = some s') :
    ∀ u uh', s'.tasks u = some uh' → uh'.tree = true →
      (∃ v vh, s.tasks v = some vh ∧ vh.tree = true ∧ vh.mm = uh'.mm) ∨
      (uh'.mm = s.nextMm ∧ s'.reg = s.reg) ∨
      (s.TaskIn uh'.mm ∧ s.protects uh'.mm = true ∧ s'.reg = s.reg) := by
  have hsame : ∀ u uh, s.tasks u = some uh → uh.tree = true →
      (∃ v vh, s.tasks v = some vh ∧ vh.tree = true ∧ vh.mm = uh.mm) ∨
      (uh.mm = s.nextMm ∧ s'.reg = s.reg) ∨
      (s.TaskIn uh.mm ∧ s.protects uh.mm = true ∧ s'.reg = s.reg) :=
    fun u uh hu htree => .inl ⟨u, uh, hu, htree, rfl⟩
  cases taskEffect_of_step hstep with
  | quiet htasks hnext hmm hexecs hclones => exact htasks ▸ hsame
  | acts t th sys h' hacts heq =>
    subst heq
    refine PartialMap.forall_update (fun u uh _ => hsame u uh) fun uh huh htree => ?_
    cases huh
    exact hsame t th hacts.task htree
  | fork t th pid kind probed ht hsys hpid heq =>
    subst heq
    refine forall_fork (fun htree => ?_) (hsame t th ht) fun u uh _ => hsame u uh
    simp only [child]
    split_ifs
    · exact .inr (.inl ⟨rfl, rfl⟩)
    · exact hsame t th ht htree
  | execMmap t th x comm ht hsys halone heq =>
    subst heq
    refine PartialMap.forall_update (fun u uh _ => hsame u uh) fun uh huh _ => ?_
    cases huh
    exact .inr (.inl ⟨rfl, rfl⟩)
  | exit t th ht hsys heq =>
    subst heq
    exact PartialMap.forall_update (fun u uh _ => hsame u uh) (by simp)
  | root t th ht hprot heq =>
    subst heq
    intro u uh' hu' htree'
    obtain ⟨uh, hu, rfl⟩ := Option.map_eq_some_iff.mp hu'
    by_cases htree : uh.tree = true
    · exact hsame u uh hu htree
    · have htgid : uh.tgid = th.tgid := by simpa [htree] using htree'
      have hmm := hg.tasks.mm u t uh th hu ht htgid
      exact .inr (.inr ⟨⟨u, uh, hu, rfl⟩, hmm ▸ hprot, rfl⟩)

/-- A worker stays in a call that has not returned. -/
lemma call_of_step (hg : s.Good met) (hstep : s.step a = some s') {b c : ℕ} {i : Slot}
    (hc : s.call b = some c) (hat : CallAt s.reg.calls c i) : s'.call b = some c := by
  cases workEffect_of_step hstep with
  | quiet hh hcall => exact hcall ▸ hc
  | handler act hh hact hcur hreg hcall => exact hcall ▸ hc
  | work b' w r hr hreads hw hh hreg hcall =>
    rw [hcall]
    by_cases hb : b = b'
    · subst hb
      obtain ⟨r', hr', hcalling⟩ := hg.workers.calls b c hc
      cases hr.symm.trans hr'
      obtain ⟨call, hcall', hslot⟩ := hat
      have hnone : s.callReturned b = none := by
        unfold callReturned
        simp only [hc, hcall', Option.bind_some]
        split
        · next hpc =>
          rw [hpc] at hslot
          cases hslot
        · rfl
      rcases hw.of_calling hcalling with ⟨ret, rfl⟩ | rfl
      · simp [workReads, hnone] at hreads
      · simp [workReads, hnone] at hreads
    · rw [Function.update_of_ne hb]
      exact hc
  | call b' r act hr hnone hact hreg hh hcall =>
    have hb : b ≠ b' := by
      rintro rfl
      cases hc.symm.trans hnone
    rw [hcall, Function.update_of_ne hb]
    exact hc

/-- The claim of an mm in the tree is that of a worker, before the step and after it. -/
lemma claimed_of_tree (hg : s.Good met) (ha : s.assumed a = true) (hin : s.inTime met a = true)
    (hstep : s.step a = some s') (hu : s.tasks u = some uh) (htree : uh.tree = true) {i : Slot}
    (hcl : s'.reg.ClaimAt i uh.mm) : ∃ b c, s'.call b = some c ∧ CallAt s'.reg.calls c i := by
  obtain ⟨owner, howned⟩ := hg.inv.reg.owned
  have htask : s.TaskIn uh.mm := ⟨u, uh, hu, rfl⟩
  rcases hg.inv.reg_of_step hstep with hreg | ⟨act, hpart⟩
  · rw [hreg] at hcl ⊢
    obtain ⟨b, c, hc, hat⟩ := hg.claimed u uh i hu htree hcl
    exact ⟨b, c, hg.call_of_step hstep hc hat, hat⟩
  · have hun := hpart.unprotects_of_assumed ha (.inl htask)
    rcases howned.liveFor_of_step hpart.step (.inr ⟨hcl.mm, hcl.claiming, hcl.cancel⟩) with
      (⟨hmm, -⟩ | ⟨hmm, hclaim, hcancel⟩) | ⟨⟨pid, comm, jit, rfl⟩, hnone, -⟩
    · have hl := (hg.workers.guarded uh.mm htask i hmm).step howned hun hpart.step
      exact absurd (hl.mm.symm.trans hcl.mm) nofun
    · have hcl₀ : s.reg.ClaimAt i uh.mm := ⟨hmm, hclaim, hcancel⟩
      obtain ⟨b, c, hc, hat⟩ := hg.claimed u uh i hu htree hcl₀
      rcases hcl₀.step howned hun hpart.step with ⟨-, -, hcalls⟩ | hl |
        ⟨-, -, -, -, -, -, -, -, hnull⟩
      · exact ⟨b, c, hg.call_of_step hstep hc hat, hcalls c hat⟩
      · exact absurd (hl.mm.symm.trans hcl.mm) nofun
      · exact absurd (hnull.symm.trans hcl.mm) nofun
    · rcases hpart.adds _ _ _ _ rfl with ⟨t, th, rfl, ht, hmm⟩ | ⟨b, -, hb⟩
      · -- `ADD_PROC` of the tree claims nothing
        have hok := taskInTime_of_inTime hin ht
        rw [taskInTime, hmm, Bool.or_eq_true] at hok
        rcases hok with hprot | hfree
        · rw [protects, acIsProtectedMm_some] at hprot
          obtain ⟨j, hj⟩ := hprot
          have hl := hg.workers.guarded uh.mm htask j hj
          exact absurd (.inl ⟨hl.mm, hl.removing⟩) (hnone j)
        · have hany : (s.anyTask fun v => v.tree && v.mm == uh.mm) = true :=
            hg.inv.anyTask_iff.mpr ⟨u, uh, hu, by simp [htree]⟩
          rw [hany] at hfree
          cases hfree
      · exact ⟨b, _, hb, Registry.callAt_of_claim hnone hpart.step hcl⟩

lemma claimed_step (hg : s.Good met) (ha : s.assumed a = true) (hin : s.inTime met a = true)
    (hstep : s.step a = some s') : ∀ t th i, s'.tasks t = some th → th.tree = true →
      s'.reg.ClaimAt i th.mm → ∃ b c, s'.call b = some c ∧ CallAt s'.reg.calls c i := by
  intro t th i ht htree hcl
  rcases hg.tree_of_step hstep t th ht htree with ⟨u, uh, hu, hutree, hmm⟩ | ⟨hmm, hreg⟩ |
    ⟨htask, hprot, hreg⟩
  · rw [← hmm] at hcl
    exact hg.claimed_of_tree ha hin hstep hu hutree hcl
  · rw [hreg, hmm] at hcl
    obtain ⟨owner, howned⟩ := hg.inv.reg.owned
    exact absurd (hg.inv.within.claimAt howned hcl) (lt_irrefl _)
  · rw [hreg] at hcl
    rw [protects, acIsProtectedMm_some] at hprot
    obtain ⟨j, hj⟩ := hprot
    have hl := hg.workers.guarded _ htask j hj
    have hij := hg.inv.reg.unique _ i j (.inr ⟨hcl.mm, hcl.claiming, hcl.cancel⟩)
      (.inl ⟨hl.mm, hl.removing⟩)
    subst hij
    cases hl.mm.symm.trans hcl.mm

/-! ### The way into an exec -/

/-- A task that another one's step brings about is not in an exec. -/
lemma tasks_of_other (hstep : s.step a = some s') (hne : ∀ act, a ≠ .task u act)
    (hu : s'.tasks u = some uh) : (∃ vh, s.tasks u = some vh) ∨ uh.sys = .user := by
  have hupd : ∀ {t : ℕ} {o : Option Thread}, u ≠ t → Function.update s.tasks t o u = some uh →
      (∃ vh, s.tasks u = some vh) ∨ uh.sys = .user := fun hut h =>
    .inl ⟨uh, (Function.update_of_ne hut _ _).symm.trans h⟩
  cases taskEffect_of_step hstep with
  | quiet htasks => exact .inl ⟨uh, htasks ▸ hu⟩
  | acts t th sys h' hacts heq =>
    subst heq
    exact hupd (by rintro rfl; exact hne _ rfl) hu
  | fork t th pid kind probed ht hsys hpid heq =>
    subst heq
    by_cases hut : u = t
    · exact absurd rfl (hut ▸ hne _)
    · exact forall_fork (P := fun v vh => v ≠ t → (∃ vh, s.tasks v = some vh) ∨ vh.sys = .user)
        (fun _ => .inr rfl) (fun h => absurd rfl h) (fun v vh _ hv _ => .inl ⟨vh, hv⟩) u uh hu hut
  | execMmap t th x comm ht hsys halone heq =>
    subst heq
    exact hupd (by rintro rfl; exact hne _ rfl) hu
  | exit t th ht hsys heq =>
    subst heq
    exact hupd (by rintro rfl; exact hne _ rfl) hu
  | root t th ht hprot heq =>
    subst heq
    obtain ⟨vh, hv, -⟩ := Option.map_eq_some_iff.mp hu
    exact .inl ⟨vh, hv⟩

lemma noteEntry_of_ne (hne : ∀ act, a ≠ .task u act) : s.noteEntry a met u = met u := by
  unfold noteEntry
  split
  · next t x => exact Function.update_of_ne (by rintro rfl; exact hne _ rfl) _ _
  · next t => exact Function.update_of_ne (by rintro rfl; exact hne _ rfl) _ _
  · rfl

/-- An exec for which a request waits claims one. -/
lemma claimed_of_awaited {x : InstId} {h' : Handoff} (hawaited : s.awaited m q = true)
    (hh : s.h.step (.entryScan x m q) = some h') : ∃ c, h'.execs x = some (.claimed c) := by
  obtain ⟨b, hb, hany⟩ := List.any_eq_true.mp hawaited
  obtain ⟨r, hr, hwaits⟩ := (Option.any_eq_true _ _).mp hany
  refine Handoff.claimed_of_entryScan hh hb hr ?_
  unfold AcProtAddReq.claimable
  cases hpost : r.postMm <;> simpa [hpost, and_assoc] using hwaits

lemma ready_self (hg : s.Good met) {act : TaskAct} (ha : s.assumed (.task t act) = true)
    (hstep : s.step (.task t act) = some s') {x : Option InstId} (ht' : s'.tasks t = some th)
    (hmet : s.noteEntry (.task t act) met t = true) (hsys : th.sys = .exec x .inside) :
    ∃ z, x = some z ∧ s'.Armed z := by
  have hset : ∀ {th₀ : Thread} {sys : Sys}, Function.update s.tasks t
      (some { th₀ with sys := sys }) t = some th → sys = .exec x .inside := by
    intro th₀ sys h
    rw [Function.update_self] at h
    cases h
    exact hsys
  cases rule_of_step hstep with
  | root _ th₀ ht₀ hprot =>
    obtain ⟨vh, hv, rfl⟩ := Option.map_eq_some_iff.mp ht'
    exact hg.ready t vh x hv hmet hsys
  | pinForeign _ th₀ ht₀ => exact hg.ready t th x ht' hmet hsys
  | addProc _ th₀ jit reg' ht₀ hreg => exact hg.ready t th x ht' hmet hsys
  | execMissed _ th₀ ht₀ hsys₀ =>
    have ha := taskAssumed_of_assumed ha ht₀
    cases ha
  | execPin _ th₀ z h' ht₀ hsys₀ hprot hh =>
    cases hset ht'
    exact ⟨z, rfl, .inl (Handoff.pinned_of_entryPin hh)⟩
  | execScan _ th₀ z h' ht₀ hsys₀ hh =>
    cases hset ht'
    have hawaited : s.awaited th₀.mm th₀.tgid = true := by
      simpa [noteEntry, ht₀] using hmet
    exact ⟨z, rfl, .inr (claimed_of_awaited hawaited hh)⟩
  | fork _ th₀ pid kind probed ht₀ hsys₀ hpid =>
    have hne := (hg.inv.tasks t th₀ ht₀).1.ne
    have hself := hset ((Function.update_of_ne hne _ _).symm.trans ht')
    split_ifs at hself
  | execMmap _ th₀ z comm ht₀ hsys₀ halone =>
    rw [show (s.execMmap t th₀ z comm).tasks t = _ from Function.update_self _ _ _] at ht'
    cases ht'
    cases hsys
  | exit _ th₀ ht₀ hsys₀ =>
    rw [show (s.setTask t none).tasks t = none from Function.update_self _ _ _] at ht'
    cases ht'
  | execDone _ th₀ mapped rc addr ht₀ hsys₀ =>
    have hself := hset ht'
    unfold afterExec at hself
    split_ifs at hself
  | execRet _ th₀ z mapped rc addr h' ht₀ hsys₀ hrc hh hx =>
    have hself := hset ht'
    unfold afterExec at hself
    split_ifs at hself
  | execRequeue _ th₀ z mapped dying addr h' ht₀ hsys₀ hh =>
    have hself := hset ht'
    unfold afterExec at hself
    split_ifs at hself
  | cloneIgnore | cloneCheck | cloneLost | cloneFind | cloneGone | cloneSame | cloneGet
  | cloneSchedule | execMiss | execGone => cases hset ht'

lemma ready_step (hg : s.Good met) (ha : s.assumed a = true) (hstep : s.step a = some s') :
    ∀ t th x, s'.tasks t = some th → s.noteEntry a met t = true → th.sys = .exec x .inside →
      ∃ z, x = some z ∧ s'.Armed z := by
  intro t th x ht' hmet hsys
  by_cases hself : ∃ act, a = .task t act
  · obtain ⟨act, rfl⟩ := hself
    exact hg.ready_self ha hstep ht' hmet hsys
  · have hne : ∀ act, a ≠ .task t act := fun act heq => hself ⟨act, heq⟩
    rw [noteEntry_of_ne hne] at hmet
    obtain ⟨vh, hv⟩ := (tasks_of_other hstep hne ht').resolve_right (by rw [hsys]; nofun)
    obtain ⟨⟨tree, hv', -⟩, -, hexecs⟩ := others_of_step hg.inv hg.insts hstep hv hne
    cases hv'.symm.trans ht'
    obtain ⟨z, rfl, hz⟩ := hg.ready t vh x hv hmet hsys
    have hkeep := hexecs z (by rw [hsys]; rfl)
    exact ⟨z, rfl, by rwa [Armed, hkeep]⟩

/-! ### Runs -/

lemma init : Inherit.init.Good fun _ => false where
  inv := .init
  registered _ := rfl
  tagged := .init
  tasks := .init
  insts := .init
  owners := .init
  workers := .init
  claimed t th i ht htree := by
    simp only [Inherit.init] at ht
    split_ifs at ht
    cases ht
    cases htree
  ready t th x ht hmet := by cases hmet
  covered t th ht htree := by
    simp only [Inherit.init] at ht
    split_ifs at ht
    cases ht
    cases htree

theorem step (hg : s.Good met) (ha : s.assumed a = true) (hin : s.inTime met a = true)
    (hstep : s.step a = some s') : s'.Good (s.noteEntry a met) where
  inv := hg.inv.step hstep
  registered := by
    rw [registered_of_step hstep]
    exact hg.registered
  tagged := by
    rcases h_of_step hstep with hh | ⟨act, hh, -⟩
    · exact hh ▸ hg.tagged
    · exact hg.tagged.step hg.inv.h.linked hh
  tasks := hg.tasks.step hg.inv hstep
  insts := hg.insts.step hstep
  owners :=
    hg.owners.step hg.inv hg.tagged hg.tasks hg.insts (keepsOwners_of_inTime hin hstep) hstep
  workers := hg.workers.step hg.inv ha hstep
  claimed := hg.claimed_step ha hin hstep
  ready := hg.ready_step ha hstep
  covered := hg.covered_step ha hin hstep

end Good

end Inherit

end Anticheat
