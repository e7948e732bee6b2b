import Anticheat.Handoff.Basic
import Anticheat.Lib.Ledger
import Anticheat.Registry.Basic

/-!
# Processes, handlers, workers and registry together

Tasks fork, exec and exit; `ac_clone_ret`, `ac_exec_entry` and `ac_exec_ret` run on their way, and
`ac_prot_add_worker` calls into the registry. Here the inputs that `Handoff` leaves open have
their values: `ac_is_protected_mm` reads the registry, `ac_add_prot_mm` and `ac_del_prot_mm` are
calls of it, and `mm_users` counts one for each task in the mm, one for each reference the module
holds and whatever other parts of the kernel hold.

Of the kernel this much is modelled. A task that enters an exec returns from it. `exec_mmap` runs
once the other threads of the process are gone, and gives the task the pid of its process. A pid is
reused only after all its tasks are gone. An address space is never mistaken for an older one: the
module compares only pointers on which it holds a reference.
-/

namespace Anticheat

/-- Where a task stands in a fork it has entered. -/
inductive ClonePc where
  /-- the child exists and `ac_clone_ret` has not run -/
  | body
  /-- in `ac_clone_ret`: `current` is protected, the child has not been looked up -/
  | checked
  /-- in `ac_clone_ret`: the child is this task, its mm has not been read -/
  | found (u : ℕ)
  /-- in `ac_clone_ret`: the child's mm is held by the instance -/
  | got (y : CloneId)
  deriving DecidableEq, Repr

/-- Where a task stands in an exec it has entered. -/
inductive ExecPc where
  /-- in `ac_exec_entry`, between the registry check and the scan -/
  | entry
  /-- inside the syscall, before `exec_mmap` -/
  | inside
  /-- past `exec_mmap` -/
  | mapped
  /-- in `ac_exec_ret`, the claimed request being gone; the flags say whether `exec_mmap` ran and
  whether the exec failed after it, so that the task is being killed -/
  | requeue (mapped dying : Bool)
  deriving DecidableEq, Repr

inductive Sys where
  | user
  /-- killed by an exec that failed past the point of no return -/
  | dying
  | clone (child : ℤ) (pc : ClonePc)
  /-- the instance is `none` if the probe was missed -/
  | exec (x : Option InstId) (pc : ExecPc)
  deriving DecidableEq, Repr

/-- A task that has not exited. `tree` marks the processes descended from a root. -/
structure Thread where
  pid : ℤ
  tgid : ℤ
  mm : ℕ
  comm : String
  sys : Sys
  tree : Bool
  deriving DecidableEq, Repr

inductive ForkKind where
  /-- a new address space -/
  | copy
  /-- `CLONE_VM` -/
  | share
  /-- `CLONE_VM | CLONE_THREAD` -/
  | thread
  deriving DecidableEq, Repr

/-- The system. Tasks and address spaces are numbered in the order they are created. `call` is the
registry call that the worker of the request at an address is in. -/
structure Inherit where
  h : Handoff
  reg : Registry ℕ
  tasks : ℕ → Option Thread
  nextTask : ℕ
  nextMm : ℕ
  call : ℕ → Option ℕ
  foreign : ℕ → ℕ

namespace Inherit

/-- One process, pid 1, and an empty module. -/
def init : Inherit where
  h := .init
  reg := .init
  tasks := fun t => if t = 0 then some ⟨1, 1, 0, "init", .user, false⟩ else none
  nextTask := 1
  nextMm := 1
  call := fun _ => none
  foreign := fun _ => 0

variable (s : Inherit)

/-! ### Reading the state -/

/-- `ac_is_protected_mm` -/
def protects (m : ℕ) : Bool := acIsProtectedMm s.reg.prots (some m)

/-- Whether some task meets the condition. -/
def anyTask (p : Thread → Bool) : Bool :=
  (List.range s.nextTask).any fun t => (s.tasks t).any p

/-- `ac_find_task` -/
def findTask (pid : ℤ) : Option ℕ :=
  (List.range s.nextTask).find? fun t => (s.tasks t).any fun th => th.pid == pid

/-- The tasks running in an mm. -/
def tasksIn (m : ℕ) : ℕ :=
  (List.range s.nextTask).countP fun t => (s.tasks t).any fun th => th.mm == m

/-- `mm_users` -/
def mmUsers (m : ℕ) : ℕ :=
  s.tasksIn m + Ledger.outstanding s.h.taken s.h.dropped m + s.foreign m

/-! ### Changing it -/

def setTask (t : ℕ) (th : Option Thread) : Inherit :=
  { s with tasks := Function.update s.tasks t th }

def setSys (t : ℕ) (th : Thread) (sys : Sys) : Inherit := s.setTask t (some { th with sys := sys })

/-- A handler or worker step. -/
def handoff (act : HandoffAct) : Option Inherit :=
  (s.h.step act).map fun h => { s with h := h }

/-- A registry step. -/
def registry (act : RegAct ℕ) : Option Inherit :=
  (s.reg.step act).map fun reg => { s with reg := reg }

/-- The child a fork of `th` creates. -/
def child (th : Thread) (pid : ℤ) (kind : ForkKind) : Thread where
  pid := pid
  tgid := if kind = .thread then th.tgid else pid
  mm := if kind = .copy then s.nextMm else th.mm
  comm := th.comm
  sys := .user
  tree := th.tree

/-- `kernel_clone` has created the child; `probed` says whether `ac_clone_ret` will run. -/
def fork (t : ℕ) (th : Thread) (pid : ℤ) (kind : ForkKind) (probed : Bool) : Inherit :=
  { (s.setSys t th (if probed then .clone pid .body else .user)).setTask s.nextTask
      (some (s.child th pid kind)) with
    nextTask := s.nextTask + 1
    nextMm := if kind = .copy then s.nextMm + 1 else s.nextMm }

/-- `exec_mmap` -/
def execMmap (t : ℕ) (th : Thread) (x : Option InstId) (comm : String) : Inherit :=
  { s.setTask t (some { th with
      pid := th.tgid, mm := s.nextMm, comm := comm, sys := .exec x .mapped }) with
    nextMm := s.nextMm + 1 }

/-- Where a task goes from an exec that has returned. -/
def afterExec (dying : Bool) : Sys := if dying then .dying else .user

end Inherit

/-- The registry call the worker makes where it stands. -/
def AcProtAddReq.call (r : AcProtAddReq) : Option (RegAct ℕ) :=
  match r.pc with
  | .addPost => some (.addEnter r.mm.mm r.newPid r.newComm r.jitAllowed)
  | .addLost => some (.addEnter r.mm.mm r.newPid r.newComm r.jitAllowed)
  | .addMm => some (.addEnter r.mm.mm r.newPid r.newComm r.jitAllowed)
  | .addLate _ post pid comm => some (.addEnter post.mm pid comm r.jitAllowed)
  | .delOld => r.oldMm.map fun old => .delEnter old.mm
  | _ => none

/-- The actions of the registry that its callers, the kernel or the release worker take. -/
def RegAct.isInternal {M : Type} : RegAct M → Bool
  | .addEnter .. => false
  | .delEnter _ => false
  | .clearEnter _ => false
  | .exit _ => false
  | _ => true

/-- What a task can do next. -/
inductive TaskAct where
  /-- from here on the process of the task counts as the root of a tree -/
  | root
  | fork (pid : ℤ) (kind : ForkKind) (probed : Bool)
  | cloneCheck
  | cloneFind
  | cloneGet (y : CloneId)
  | cloneSchedule (addr : Option ℕ)
  /-- an exec, with the instance its probe gets -/
  | execEntry (x : Option InstId)
  | execScan
  | execMmap (comm : String)
  | execRet (rc : ℤ) (addr : Option ℕ)
  | execRequeue (addr : Option ℕ)
  | exit
  /-- another part of the kernel takes a reference on the task's mm -/
  | pinForeign
  /-- somebody calls `ADD_PROC` for the task -/
  | addProc (jit : Bool)
  deriving DecidableEq, Repr

inductive InheritAct where
  | task (t : ℕ) (act : TaskAct)
  /-- `mm_users` of the mm has come down to 0 -/
  | mmExit (m : ℕ)
  /-- another part of the kernel drops its reference -/
  | unpinForeign (m : ℕ)
  /-- `DEL_PROC` -/
  | delProc (m : ℕ)
  | reg (a : RegAct ℕ)
  | work (a : ℕ) (w : WorkAct)
  /-- the worker of the request at `a` enters the registry -/
  | workCall (a : ℕ)
  deriving DecidableEq, Repr

namespace Inherit

variable (s : Inherit)

/-- What the registry call of a worker has returned. -/
def callReturned (a : ℕ) : Option ℤ :=
  (s.call a).bind fun c => (s.reg.calls[c]?).bind fun call =>
    match call.pc with
    | .returned ret => some ret
    | _ => none

/-- What the worker reads from the registry and from `mm_users` is what is there. -/
def workReads (a : ℕ) (r : AcProtAddReq) : WorkAct → Bool
  | .added ret => s.callReturned a == some ret
  | .deleted => (s.callReturned a).isSome
  | .users shared =>
    match r.oldMm with
    | some old => shared == decide (1 < s.mmUsers old.mm)
    | none => true
  | _ => true

/-- A step of the worker. -/
def work (a : ℕ) (r : AcProtAddReq) (w : WorkAct) : Option Inherit :=
  if s.workReads a r w then
    (s.handoff (.work a w)).map fun s' => { s' with call := Function.update s.call a none }
  else none

/-- The worker calls `ac_add_prot_mm` or `ac_del_prot_mm`. -/
def workCall (a : ℕ) (r : AcProtAddReq) : Option Inherit :=
  match s.call a, r.call with
  | none, some act =>
    (s.registry act).map fun s' =>
      { s' with call := Function.update s.call a (some s.reg.calls.length) }
  | _, _ => none

/-- What `ac_prot_jit_allowed_mm(d->old_mm)` returns in `ac_exec_ret`. -/
def oldJit (x : InstId) : Bool :=
  match s.h.execs x with
  | some (.pinned old _) => acProtJitAllowedMm s.reg.prots old.mm
  | _ => false

/-- `ac_clone_ret` reads the mm of the child it has found. -/
def cloneGet (t : ℕ) (th : Thread) (child : ℤ) (u : ℕ) (y : CloneId) : Option Inherit :=
  match s.tasks u with
  | none => some (s.setSys t th .user)
  | some c =>
    (s.handoff (.cloneGet y c.mm th.mm c.pid c.comm)).map fun s' =>
      s'.setSys t th (if c.mm = th.mm then .user else .clone child (.got y))

/-- `ac_exec_entry` up to the scan of `ac_pending_forks`. -/
def execEntry (t : ℕ) (th : Thread) (x : InstId) : Option Inherit :=
  if s.protects th.mm then
    (s.handoff (.entryPin x th.mm th.pid th.comm)).map fun s' =>
      s'.setSys t th (.exec (some x) .inside)
  else
    (s.handoff (.entryMiss x)).map fun s' => s'.setSys t th (.exec (some x) .entry)

/-- The exec returns `rc`, and `ac_exec_ret` runs unless the probe was missed. An exec that fails
past `exec_mmap` kills the task. -/
def execRet (t : ℕ) (th : Thread) (x : Option InstId) (mapped : Bool) (rc : ℤ)
    (addr : Option ℕ) : Option Inherit :=
  let dying := mapped && rc != 0
  match x with
  | none => some (s.setSys t th (afterExec dying))
  | some x =>
    (s.handoff (.execRet x rc (some th.mm) th.pid th.comm (s.oldJit x) addr)).map fun s' =>
      s'.setSys t th
        (if (s'.h.execs x).isNone then afterExec dying
          else .exec (some x) (.requeue mapped dying))

/-- A task's own step. -/
def taskStep (t : ℕ) (th : Thread) : TaskAct → Option Inherit
  | .root =>
    if s.protects th.mm then
      some { s with
        tasks := fun u => (s.tasks u).map fun uh =>
          { uh with tree := uh.tree || uh.tgid == th.tgid } }
    else none
  | .fork pid kind probed =>
    if th.sys = .user ∧ 0 < pid ∧ !s.anyTask fun u => u.pid == pid || u.tgid == pid then
      some (s.fork t th pid kind probed)
    else none
  | .cloneCheck =>
    match th.sys with
    | .clone child .body =>
      some (s.setSys t th (if s.protects th.mm then .clone child .checked else .user))
    | _ => none
  | .cloneFind =>
    match th.sys with
    | .clone child .checked =>
      some (s.setSys t th ((s.findTask child).elim .user fun u => .clone child (.found u)))
    | _ => none
  | .cloneGet y =>
    match th.sys with
    | .clone child (.found u) => s.cloneGet t th child u y
    | _ => none
  | .cloneSchedule addr =>
    match th.sys with
    | .clone _ (.got y) =>
      (s.handoff (.cloneSchedule y th.pid th.comm (acProtJitAllowedMm s.reg.prots th.mm)
        addr)).map fun s' => s'.setSys t th .user
    | _ => none
  | .execEntry x =>
    match th.sys, x with
    | .user, none => some (s.setSys t th (.exec none .inside))
    | .user, some x => s.execEntry t th x
    | _, _ => none
  | .execScan =>
    match th.sys with
    | .exec (some x) .entry =>
      (s.handoff (.entryScan x th.mm th.tgid)).map fun s' =>
        s'.setSys t th (.exec (some x) .inside)
    | _ => none
  | .execMmap comm =>
    match th.sys with
    | .exec x .inside =>
      if (s.setTask t none).anyTask fun u => u.tgid == th.tgid then none
      else some (s.execMmap t th x comm)
    | _ => none
  | .execRet rc addr =>
    match th.sys with
    | .exec x .inside => if rc = 0 then none else s.execRet t th x false rc addr
    | .exec x .mapped => s.execRet t th x true rc addr
    | _ => none
  | .execRequeue addr =>
    match th.sys with
    | .exec (some x) (.requeue _ dying) =>
      (s.handoff (.requeue x addr)).map fun s' => s'.setSys t th (afterExec dying)
    | _ => none
  | .exit => if th.sys = .user ∨ th.sys = .dying then some (s.setTask t none) else none
  | .pinForeign =>
    some { s with foreign := Function.update s.foreign th.mm (s.foreign th.mm + 1) }
  | .addProc jit => s.registry (.addEnter th.mm th.pid th.comm jit)

def step (s : Inherit) : InheritAct → Option Inherit
  | .task t act => (s.tasks t).bind fun th => s.taskStep t th act
  | .mmExit m => if m < s.nextMm ∧ s.mmUsers m = 0 then s.registry (.exit m) else none
  | .unpinForeign m =>
    if 0 < s.foreign m then
      some { s with foreign := Function.update s.foreign m (s.foreign m - 1) }
    else none
  | .delProc m => if m < s.nextMm then s.registry (.delEnter m) else none
  | .reg a => if a.isInternal then s.registry a else none
  | .work a w => (s.h.reqs a).bind fun r => s.work a r w
  | .workCall a => (s.h.reqs a).bind fun r => s.workCall a r

end Inherit

end Anticheat
