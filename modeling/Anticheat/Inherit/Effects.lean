import Anticheat.Inherit.Rules
import Anticheat.Lib.Exclusive
import Anticheat.Lib.PartialMap

/-!
# What a step does to the tasks

Most steps leave the tasks alone or move one of them on in its system call. `TaskEffect` sums up
the rules: it says which task moves, and that a handler touches no kretprobe instance but that of
the task it runs on.
-/

namespace Anticheat

/-! ### Instances -/

/-- The exec instance an action is about. -/
def HandoffAct.inst : HandoffAct → Option InstId
  | .entryPin x _ _ _ => some x
  | .entryMiss x => some x
  | .entryScan x _ _ => some x
  | .execRet x _ _ _ _ _ _ => some x
  | .requeue x _ => some x
  | .discard x => some x
  | _ => none

/-- The clone instance an action is about. -/
def HandoffAct.cloneInst : HandoffAct → Option CloneId
  | .cloneGet y _ _ _ _ => some y
  | .cloneSchedule y _ _ _ _ => some y
  | _ => none

namespace Handoff

variable {s s' : Handoff} {act : HandoffAct}

lemma execs_of_step (hstep : s.step act = some s') {x : InstId} (hx : act.inst ≠ some x) :
    s'.execs x = s.execs x := by
  have hne : ∀ {z : InstId} (i : Option ExecInst), some z ≠ some x →
      Function.update s.execs z i x = s.execs x := by
    intro z i hz
    exact Function.update_of_ne (fun heq => hz (congrArg some heq.symm)) _ _
  cases rule_of_step hstep with
  | work a r w s' hr hw => cases hw <;> rfl
  | unregister k => rfl
  | dropPin i hi hreg hidle => rfl
  | cloneSame y m cpid ccomm hy => rfl
  | cloneGet y m cur cpid ccomm hy hm => rfl
  | cloneSchedule y c ppid pcomm jit a hy ha => rfl
  | cloneDropped y c ppid pcomm jit hy => rfl
  | _ => exact hne _ hx

lemma clones_of_step (hstep : s.step act = some s') {y : CloneId} (hy : act.cloneInst ≠ some y) :
    s'.clones y = s.clones y := by
  have hne : ∀ {z : CloneId} (i : Option CloneInst), some z ≠ some y →
      Function.update s.clones z i y = s.clones y := by
    intro z i hz
    exact Function.update_of_ne (fun heq => hz (congrArg some heq.symm)) _ _
  cases rule_of_step hstep with
  | work a r w s' hr hw => cases hw <;> rfl
  | cloneGet z m cur cpid ccomm hz hm => exact hne _ hy
  | cloneSchedule z c ppid pcomm jit a hz ha => exact hne _ hy
  | cloneDropped z c ppid pcomm jit hz => exact hne _ hy
  | _ => rfl

/-- `ac_clone_ret` for a child in the parent's own mm. -/
lemma cloneGet_self {y : CloneId} {m : ℕ} {pid : ℤ} {comm : String}
    (hstep : s.step (.cloneGet y m m pid comm) = some s') :
    s' = (s.get m).put (s.nextRef m) := by
  cases rule_of_step hstep with
  | cloneSame => rfl
  | cloneGet _ _ _ _ _ _ hne => exact absurd rfl hne

/-- `ac_clone_ret` for a child with an mm of its own. -/
lemma cloneGet_of_ne {y : CloneId} {m cur : ℕ} {pid : ℤ} {comm : String} (hm : m ≠ cur)
    (hstep : s.step (.cloneGet y m cur pid comm) = some s') :
    s.clones y = none ∧ s' = (s.get m).setClone y (some ⟨s.nextRef m, pid, comm⟩) := by
  cases rule_of_step hstep with
  | cloneSame => exact absurd rfl hm
  | cloneGet _ _ _ _ _ hy _ => exact ⟨hy, rfl⟩

end Handoff

/-! ### Where a task stands -/

namespace Sys

/-- The exec instance of the system call. -/
def inst : Sys → Option InstId
  | .exec x _ => x
  | _ => none

/-- The clone instance that holds a child's mm. -/
def got : Sys → Option CloneId
  | .clone _ (.got y) => some y
  | _ => none

/-- The task has passed `exec_mmap` and is still in the exec. -/
def isMapped : Sys → Bool
  | .exec _ .mapped => true
  | .exec _ (.requeue true _) => true
  | _ => false

/-- The task has found itself protected in `ac_clone_ret` and has not read the child's mm. -/
def isChecked : Sys → Bool
  | .clone _ .checked => true
  | .clone _ (.found _) => true
  | _ => false

/-- The task is being killed. -/
def isDoomed : Sys → Bool
  | .dying => true
  | .exec _ (.requeue _ true) => true
  | _ => false

end Sys

namespace Inherit

@[simp] lemma inst_afterExec (dying : Bool) : (afterExec dying).inst = none := by
  cases dying <;> rfl

@[simp] lemma got_afterExec (dying : Bool) : (afterExec dying).got = none := by
  cases dying <;> rfl

@[simp] lemma isChecked_afterExec (dying : Bool) : (afterExec dying).isChecked = false := by
  cases dying <;> rfl

@[simp] lemma isMapped_afterExec (dying : Bool) : (afterExec dying).isMapped = false := by
  cases dying <;> rfl

/-- Task `t` moves on to `sys`, and a handler that runs on it turns the instances into those of
`h'`. A task turns to a free instance or to its own. -/
structure Acts (s : Inherit) (t : ℕ) (th : Thread) (sys : Sys) (h' : Handoff) : Prop where
  task : s.tasks t = some th
  mapped : sys.isMapped = true → th.sys.isMapped = true
  doomed : th.sys.isDoomed = true → sys.isDoomed = true
  inst : ∀ x, sys.inst = some x → h'.execs x ≠ none ∧
    (th.sys.inst = some x ∨ (s.h.execs x = none ∧ ∀ c, h'.execs x ≠ some (.claimed c)))
  execs : ∀ x, th.sys.inst ≠ some x → sys.inst ≠ some x → h'.execs x = s.h.execs x
  got : ∀ y, sys.got = some y → h'.clones y ≠ none ∧
    (th.sys.got = some y ∨ s.h.clones y = none)
  clones : ∀ y, th.sys.got ≠ some y → sys.got ≠ some y → h'.clones y = s.h.clones y
  checked : sys.isChecked = true → s.protects th.mm = true ∨ th.sys.isChecked = true

/-- What a step does to the tasks. -/
inductive TaskEffect (s s' : Inherit) : InheritAct → Prop where
  | quiet {a : InheritAct} (htasks : s'.tasks = s.tasks) (hnext : s'.nextTask = s.nextTask)
      (hmm : s'.nextMm = s.nextMm) (hexecs : s'.h.execs = s.h.execs)
      (hclones : s'.h.clones = s.h.clones) : TaskEffect s s' a
  | acts {act : TaskAct} (t : ℕ) (th : Thread) (sys : Sys) (h' : Handoff)
      (hacts : s.Acts t th sys h') (heq : s' = { s with h := h' }.setSys t th sys) :
      TaskEffect s s' (.task t act)
  | fork (t : ℕ) (th : Thread) (pid : ℤ) (kind : ForkKind) (probed : Bool)
      (ht : s.tasks t = some th) (hsys : th.sys = .user)
      (hpid : s.anyTask (fun u => u.pid == pid || u.tgid == pid) = false)
      (heq : s' = s.fork t th pid kind probed) : TaskEffect s s' (.task t (.fork pid kind probed))
  | execMmap (t : ℕ) (th : Thread) (x : Option InstId) (comm : String)
      (ht : s.tasks t = some th) (hsys : th.sys = .exec x .inside)
      (halone : (s.setTask t none).anyTask (fun u => u.tgid == th.tgid) = false)
      (heq : s' = s.execMmap t th x comm) : TaskEffect s s' (.task t (.execMmap comm))
  | exit (t : ℕ) (th : Thread) (ht : s.tasks t = some th)
      (hsys : th.sys = .user ∨ th.sys = .dying) (heq : s' = s.setTask t none) :
      TaskEffect s s' (.task t .exit)
  | root (t : ℕ) (th : Thread) (ht : s.tasks t = some th) (hprot : s.protects th.mm = true)
      (heq : s' = { s with
        tasks := fun u => (s.tasks u).map fun uh =>
          { uh with tree := uh.tree || uh.tgid == th.tgid } }) : TaskEffect s s' (.task t .root)

/-- What holds of the child, the parent and the other tasks holds of all after a fork. -/
lemma forall_fork {s : Inherit} {t : ℕ} {th : Thread} {pid : ℤ} {kind : ForkKind} {probed : Bool}
    {P : ℕ → Thread → Prop} (hchild : P s.nextTask (s.child th pid kind))
    (hparent : P t { th with sys := if probed then .clone pid .body else .user })
    (hrest : ∀ u uh, u ≠ t → s.tasks u = some uh → P u uh) :
    ∀ u uh, (s.fork t th pid kind probed).tasks u = some uh → P u uh := by
  have hold : ∀ u uh, (s.setSys t th (if probed then .clone pid .body else .user)).tasks u =
      some uh → P u uh := by
    refine PartialMap.forall_update (fun u uh => hrest u uh) fun uh huh => ?_
    cases huh
    exact hparent
  refine PartialMap.forall_update (fun u uh _ => hold u uh) fun uh huh => ?_
  cases huh
  exact hchild

section Acts

variable {s : Inherit} {t : ℕ} {th : Thread} {sys : Sys} {h' : Handoff}

/-- A step of a task outside the handlers' instances. -/
lemma Acts.of_none (ht : s.tasks t = some th) (hd : th.sys.isDoomed = true → sys.isDoomed = true)
    (hm : sys.isMapped = false) (hx : sys.inst = none) (hy : sys.got = none)
    (hc : sys.isChecked = true → s.protects th.mm = true ∨ th.sys.isChecked = true) :
    s.Acts t th sys s.h where
  task := ht
  mapped h := absurd (hm.symm.trans h) nofun
  doomed := hd
  inst _ h := absurd (hx.symm.trans h) nofun
  execs _ _ _ := rfl
  got _ h := absurd (hy.symm.trans h) nofun
  clones _ _ _ := rfl
  checked := hc

/-- A step of a clone handler. -/
lemma Acts.of_clone {act : HandoffAct} (ht : s.tasks t = some th)
    (hh : s.h.step act = some h') (hinst : act.inst = none)
    (hsys : th.sys.isDoomed = false ∧ sys.isMapped = false ∧ sys.inst = none)
    (hc : sys.isChecked = false)
    (hy : ∀ y, sys.got = some y → h'.clones y ≠ none ∧
      (th.sys.got = some y ∨ s.h.clones y = none))
    (hclones : ∀ y, th.sys.got ≠ some y → sys.got ≠ some y → h'.clones y = s.h.clones y) :
    s.Acts t th sys h' where
  task := ht
  mapped h := absurd (hsys.2.1.symm.trans h) nofun
  doomed h := absurd (hsys.1.symm.trans h) nofun
  inst _ h := absurd (hsys.2.2.symm.trans h) nofun
  execs x _ _ := Handoff.execs_of_step hh (by simp [hinst])
  got := hy
  clones := hclones
  checked h := absurd (hc.symm.trans h) nofun

/-- A step of an exec handler. -/
lemma Acts.of_exec {act : HandoffAct} (ht : s.tasks t = some th)
    (hh : s.h.step act = some h') (hclone : act.cloneInst = none)
    (hm : sys.isMapped = true → th.sys.isMapped = true)
    (hd : th.sys.isDoomed = true → sys.isDoomed = true) (hy : sys.got = none)
    (hc : sys.isChecked = false)
    (hinst : ∀ x, act.inst = some x → th.sys.inst = some x ∨ sys.inst = some x)
    (hx : ∀ x, sys.inst = some x → h'.execs x ≠ none ∧
      (th.sys.inst = some x ∨ (s.h.execs x = none ∧ ∀ c, h'.execs x ≠ some (.claimed c)))) :
    s.Acts t th sys h' where
  task := ht
  mapped := hm
  doomed := hd
  inst := hx
  execs x hx₁ hx₂ := Handoff.execs_of_step hh fun h => (hinst x h).elim hx₁ hx₂
  got _ h := absurd (hy.symm.trans h) nofun
  clones y _ _ := Handoff.clones_of_step hh (by simp [hclone])
  checked h := absurd (hc.symm.trans h) nofun

end Acts

variable {s s' : Inherit} {a : InheritAct}

theorem taskEffect_of_step (hstep : s.step a = some s') : TaskEffect s s' a := by
  cases rule_of_step hstep with
  | root t th ht hprot => exact .root t th ht hprot rfl
  | fork t th pid kind probed ht hsys hpid => exact .fork t th pid kind probed ht hsys hpid rfl
  | execMmap t th x comm ht hsys halone => exact .execMmap t th x comm ht hsys halone rfl
  | exit t th ht hsys => exact .exit t th ht hsys rfl
  | cloneIgnore t th child ht hsys hprot =>
    exact .acts t th .user s.h (.of_none ht (by simp [hsys, Sys.isDoomed]) rfl rfl rfl nofun) rfl
  | cloneCheck t th child ht hsys hprot =>
    refine .acts t th (.clone child .checked) s.h ?_ rfl
    exact .of_none ht (by simp [hsys, Sys.isDoomed]) rfl rfl rfl fun _ => .inl hprot
  | cloneLost t th child ht hsys hfind =>
    exact .acts t th .user s.h (.of_none ht (by simp [hsys, Sys.isDoomed]) rfl rfl rfl nofun) rfl
  | cloneFind t th child u ht hsys hfind =>
    refine .acts t th (.clone child (.found u)) s.h ?_ rfl
    exact .of_none ht (by simp [hsys, Sys.isDoomed]) rfl rfl rfl fun _ => .inr (by rw [hsys]; rfl)
  | cloneGone t th child u y ht hsys hu =>
    exact .acts t th .user s.h (.of_none ht (by simp [hsys, Sys.isDoomed]) rfl rfl rfl nofun) rfl
  | execMissed t th ht hsys =>
    refine .acts t th (.exec none .inside) s.h ?_ rfl
    exact .of_none ht (by simp [hsys, Sys.isDoomed]) rfl rfl rfl nofun
  | execDone t th mapped rc addr ht hsys =>
    refine .acts t th _ s.h (.of_none ht (fun hd => ?_) ?_ ?_ ?_ ?_) rfl
    · rw [hsys] at hd
      cases mapped <;> cases hd
    all_goals simp
  | cloneSame t th child u y c h' ht hsys hu hmm hh =>
    have hacts : s.Acts t th .user h' := by
      refine .of_clone ht hh rfl (by simp [hsys, Sys.isDoomed, Sys.isMapped, Sys.inst]) rfl
        (fun z hz => nomatch hz) fun z _ _ => ?_
      rw [hmm] at hh
      rw [Handoff.cloneGet_self hh]
      rfl
    exact .acts t th _ h' hacts rfl
  | cloneGet t th child u y c h' ht hsys hu hmm hh =>
    have hacts : s.Acts t th (.clone child (.got y)) h' := by
      refine .of_clone ht hh rfl (by simp [hsys, Sys.isDoomed, Sys.isMapped, Sys.inst]) rfl
        (fun z hz => ?_) fun z _ hz => Handoff.clones_of_step hh hz
      cases hz
      obtain ⟨hy, rfl⟩ := Handoff.cloneGet_of_ne hmm hh
      exact ⟨by simp [Handoff.setClone], .inr hy⟩
    exact .acts t th _ h' hacts rfl
  | cloneSchedule t th child y addr h' ht hsys hh =>
    have hacts : s.Acts t th .user h' := by
      refine .of_clone ht hh rfl (by simp [hsys, Sys.isDoomed, Sys.isMapped, Sys.inst]) rfl
        (fun z hz => nomatch hz) fun z hz _ => ?_
      rw [hsys] at hz
      exact Handoff.clones_of_step hh hz
    exact .acts t th _ h' hacts rfl
  | execPin t th x h' ht hsys hprot hh =>
    have hacts : s.Acts t th (.exec (some x) .inside) h' := by
      refine .of_exec ht hh rfl nofun (by simp [hsys, Sys.isDoomed]) rfl rfl (fun z hz => .inr hz)
        fun z hz => ?_
      cases hz
      cases Handoff.rule_of_step hh with
      | pin _ _ _ _ i hreg hx hi =>
        exact ⟨by simp [Handoff.setExec, Handoff.setPin, Handoff.emit],
          .inr ⟨hx, by simp [Handoff.setExec, Handoff.setPin, Handoff.emit]⟩⟩
      | pinUntracked _ _ _ _ hreg hx hi =>
        exact ⟨by simp [Handoff.setExec, Handoff.emit],
          .inr ⟨hx, by simp [Handoff.setExec, Handoff.emit]⟩⟩
    exact .acts t th _ h' hacts rfl
  | execMiss t th x h' ht hsys hprot hh =>
    have hacts : s.Acts t th (.exec (some x) .entry) h' := by
      refine .of_exec ht hh rfl nofun (by simp [hsys, Sys.isDoomed]) rfl rfl (fun z hz => .inr hz)
        fun z hz => ?_
      cases hz
      cases Handoff.rule_of_step hh with
      | miss _ hreg hx =>
        exact ⟨by simp [Handoff.setExec], .inr ⟨hx, by simp [Handoff.setExec]⟩⟩
    exact .acts t th _ h' hacts rfl
  | execScan t th x h' ht hsys hh =>
    have hacts : s.Acts t th (.exec (some x) .inside) h' := by
      refine .of_exec ht hh rfl nofun (by simp [hsys, Sys.isDoomed]) rfl rfl (fun z hz => .inr hz)
        fun z hz => ?_
      cases hz
      refine ⟨?_, .inl (by rw [hsys]; rfl)⟩
      cases Handoff.rule_of_step hh with
      | scanPlain => simp [Handoff.setExec]
      | scanClaim => simp [Handoff.setExec]
    exact .acts t th _ h' hacts rfl
  | execRet t th x mapped rc addr h' ht hsys hrc hh hx =>
    refine .acts t th _ h' (.of_exec ht hh rfl (by simp) (fun hd => ?_) (by simp) (by simp)
      (fun z hz => .inl ?_) (by simp)) rfl
    · rw [hsys] at hd
      cases mapped <;> cases hd
    · rw [hsys]
      exact hz
  | execGone t th x mapped rc addr h' ht hsys hrc hh hx =>
    have hacts : s.Acts t th (.exec (some x) (.requeue mapped (mapped && rc != 0))) h' := by
      refine .of_exec ht hh rfl (fun hm => ?_) (fun hd => ?_) rfl rfl (fun z hz => .inr hz)
        fun z hz => ?_
      · rw [hsys]
        cases mapped with
        | true => rfl
        | false => cases hm
      · rw [hsys] at hd
        cases mapped <;> cases hd
      · cases hz
        exact ⟨hx, .inl (by rw [hsys]; rfl)⟩
    exact .acts t th _ h' hacts rfl
  | execRequeue t th x mapped dying addr h' ht hsys hh =>
    refine .acts t th _ h' (.of_exec ht hh rfl (by simp) (fun hd => ?_) (by simp) (by simp)
      (fun z hz => .inl ?_) (by simp)) rfl
    · rw [hsys] at hd
      cases dying with
      | true => rfl
      | false => cases hd
    · rw [hsys]
      exact hz
  | work b w r h' hr hreads hh =>
    refine .quiet rfl rfl rfl (funext fun x => ?_) (funext fun y => ?_)
    · exact Handoff.execs_of_step hh nofun
    · exact Handoff.clones_of_step hh nofun
  | _ => exact .quiet rfl rfl rfl rfl rfl

end Inherit

end Anticheat
