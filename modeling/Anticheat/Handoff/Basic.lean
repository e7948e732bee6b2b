import Anticheat.Basic
import Mathlib.Data.Fintype.Prod
import Mathlib.Data.List.FinRange

/-!
# Deferred registration

The requests that `ac_clone_ret` and `ac_exec_ret` queue for `ac_prot_add_worker`, the list
`ac_pending_forks` through which an exec hands its new image to a request already queued, and the
pins that `ac_exec_entry` takes. Each critical section of `ac_pending_fork_lock` is one action;
where a handler does something before or after one that others can see, that is an action too.

The registry and the tasks are the environment here: what `ac_is_protected_mm`, `ac_add_prot_mm`
and the read of `mm_users` return, and whose `current` a handler sees, are inputs of the actions.
An address space is a number. So is the address of a request, which can be recycled as soon as
the request is freed.
-/

namespace Anticheat

/-- A reference on the `mm_users` of an address space. `id` numbers the references in the order
they are taken, so that dropping one twice and never dropping one can be told. -/
structure Ref where
  id : ℕ
  mm : ℕ
  deriving DecidableEq, Repr

/-- The exec kretprobes of `ac_kretprobes[]`: `execve` and `execveat`, each native, ia32 and
x32. -/
abbrev ExecProbe := Fin 6

instance ExecProbe.neZero : NeZero 6 := ⟨by decide⟩

/-- `AC_EXEC_MAXACTIVE` -/
def acExecMaxactive : ℕ := 64

instance : NeZero acExecMaxactive := ⟨by decide⟩

/-- `AC_EXEC_PIN_MAX` -/
def acExecPinMax : ℕ := 6 * acExecMaxactive

/-- The instances in the pools of the exec kretprobes. -/
abbrev InstId := ExecProbe × Fin acExecMaxactive

/-- The instances in the pool of the `kernel_clone` kretprobe. -/
abbrev CloneId := Fin 128

instance CloneId.neZero : NeZero 128 := ⟨by decide⟩

/-- An index into `ac_exec_pins[]`. -/
abbrev PinSlot := Fin acExecPinMax

/-- Where `ac_prot_add_worker` stands. -/
inductive WorkPc where
  | queued
  /-- claimed: in `wait_for_completion_timeout` -/
  | waiting
  /-- claimed: unlinked, with what `post_mm` held -/
  | consumed (post : Option Ref)
  /-- claimed: in `ac_add_prot_mm` of the handoff it adopted -/
  | addPost
  /-- claimed: in `ac_add_prot_mm` of the pre-exec image, the handoff having been lost -/
  | addLost
  /-- in `ac_add_prot_mm` of `r->mm` -/
  | addMm
  /-- that call returned `ret` -/
  | added (ret : ℤ)
  /-- unlinked: in `ac_add_prot_mm` of a handoff that came during that call -/
  | addLate (ret : ℤ) (post : Ref) (pid : ℤ) (comm : String)
  /-- rekey: in `ac_del_prot_mm` of `r->old_mm` -/
  | delOld
  /-- rekey: before `mmput(r->old_mm)` -/
  | putOld
  /-- before `mmput(r->mm)` and `mempool_free` -/
  | putMm
  deriving DecidableEq, Repr

/-- `struct ac_prot_add_req`, with the state of its work item. `serial` numbers the fork-inherit
requests from 1; it is what `req_id` would be if it did not wrap. -/
structure AcProtAddReq where
  mm : Ref
  oldMm : Option Ref
  newPid : ℤ
  newComm : String
  srcPid : ℤ
  srcComm : String
  jitAllowed : Bool
  claimed : Bool
  handoffDone : Bool
  postMm : Option Ref
  postPid : ℤ
  postComm : String
  reqId : BitVec 32
  pc : WorkPc
  serial : ℕ
  deriving DecidableEq, Repr

/-- What `struct ac_exec_entry_data` records of a claimed request. -/
structure ExecClaim where
  pendingReq : ℕ
  pendingId : BitVec 32
  jitAllowed : Bool
  parentPid : ℤ
  parentComm : String
  serial : ℕ
  deriving DecidableEq, Repr

/-- An exec kretprobe instance in use. -/
inductive ExecInst where
  /-- in `ac_exec_entry`, past the registry check, before the scan of `ac_pending_forks` -/
  | scanning
  /-- inside the syscall, nothing to do on return -/
  | plain
  /-- inside the syscall, `old_mm` pinned; the slot is `none` if the pin went untracked -/
  | pinned (old : Ref) (slot : Option PinSlot)
  /-- inside the syscall, `fork_race_inherit` set -/
  | claimed (c : ExecClaim)
  /-- in `ac_exec_ret`, the claimed request being gone, before `ac_schedule_prot_add` -/
  | requeue (c : ExecClaim) (mm : Ref) (pid : ℤ) (comm : String)
  deriving DecidableEq, Repr

/-- Whether the instance is in the middle of a handler. -/
def ExecInst.inHandler : ExecInst → Bool
  | .scanning => true
  | .requeue .. => true
  | _ => false

/-- `ac_clone_ret` between `get_task_mm(child)` and `ac_schedule_prot_add`. -/
structure CloneInst where
  childMm : Ref
  cpid : ℤ
  ccomm : String
  deriving DecidableEq, Repr

/-! ### Histories -/

/-- What happened so far. Requests are named by their serial numbers. -/
structure History where
  /-- the worker of a request passed an mm to `ac_add_prot_mm` -/
  passed : List (ℕ × ℕ)
  /-- an mm was overwritten in the `post_mm` of a request -/
  superseded : List (ℕ × ℕ)
  /-- the worker of a request gave up its own mm for the one posted -/
  replaced : List (ℕ × ℕ × ℕ)

/-- The state. From `taken` on the fields are histories: the mm of each reference ever taken, the
references dropped, the instance each pin was tracked for, and the number of fork-inherit
requests. -/
structure Handoff where
  reqs : ℕ → Option AcProtAddReq
  pending : List ℕ
  seq : BitVec 32
  execs : InstId → Option ExecInst
  clones : CloneId → Option CloneInst
  pins : PinSlot → Option Ref
  registered : ExecProbe → Bool
  /-- the index `ac_exec_pins_drop_all` has come to -/
  dropNext : ℕ
  emits : List AcEmit
  taken : List ℕ
  dropped : List ℕ
  owner : PinSlot → InstId
  serial : ℕ
  hist : History

def Handoff.init : Handoff where
  reqs := fun _ => none
  pending := []
  seq := 0
  execs := fun _ => none
  clones := fun _ => none
  pins := fun _ => none
  registered := fun _ => true
  dropNext := 0
  emits := []
  taken := []
  dropped := []
  owner := fun _ => (0, 0)
  serial := 0
  hist := ⟨[], [], []⟩

namespace Handoff

variable (s : Handoff)

/-! ### References, requests, instances -/

/-- The reference the next `get_task_mm` or `mmget` of `m` takes. -/
def nextRef (m : ℕ) : Ref := ⟨s.taken.length, m⟩

/-- `get_task_mm` or `mmget` -/
def get (m : ℕ) : Handoff := { s with taken := s.taken ++ [m] }

/-- `mmput` or `mmput_async` -/
def put (r : Ref) : Handoff := { s with dropped := s.dropped ++ [r.id] }

def putOpt (o : Option Ref) : Handoff :=
  { s with
    dropped :=
      match o with
      | none => s.dropped
      | some r => s.dropped ++ [r.id] }

def emit (e : AcEmit) : Handoff := { s with emits := s.emits ++ [e] }

def setReq (a : ℕ) (r : Option AcProtAddReq) : Handoff :=
  { s with reqs := Function.update s.reqs a r }

def setExec (x : InstId) (i : Option ExecInst) : Handoff :=
  { s with execs := Function.update s.execs x i }

def setClone (y : CloneId) (i : Option CloneInst) : Handoff :=
  { s with clones := Function.update s.clones y i }

def setPin (i : PinSlot) (r : Option Ref) : Handoff :=
  { s with pins := Function.update s.pins i r }

/-- `list_del` -/
def unlink (a : ℕ) : Handoff := { s with pending := s.pending.erase a }

/-- The worker of request `n` calls `ac_add_prot_mm`. -/
def pass (n m : ℕ) : Handoff :=
  { s with hist := { s.hist with passed := s.hist.passed ++ [(n, m)] } }

end Handoff

/-! ### Requests -/

/-- The request as `ac_schedule_prot_add_req` fills it in. -/
def AcProtAddReq.make (mm : Ref) (oldMm : Option Ref) (newPid : ℤ) (newComm : String)
    (srcPid : ℤ) (srcComm : String) (jit : Bool) : AcProtAddReq where
  mm := mm
  oldMm := oldMm
  newPid := newPid
  newComm := strscpy acMaxComm newComm
  srcPid := srcPid
  srcComm := strscpy acMaxComm srcComm
  jitAllowed := jit
  claimed := false
  handoffDone := false
  postMm := none
  postPid := 0
  postComm := ""
  reqId := 0
  pc := .queued
  serial := 0

namespace AcProtAddReq

variable (r : AcProtAddReq)

/-- Whether `ac_exec_entry` of a task of `tgid` in `m` claims this request. The second form is a
chained exec: the request still advertises the previous handoff. -/
def claimable (m : ℕ) (tgid : ℤ) : Bool :=
  (r.mm.mm == m && r.newPid == tgid) ||
    (r.claimed && r.postMm.map Ref.mm == some m && r.postPid == tgid)

/-- The critical section after the wait: take the handoff over. -/
def consume : AcProtAddReq :=
  match r.postMm with
  | none => { r with pc := .consumed none }
  | some p =>
    { r with
      pc := .consumed (some p)
      postMm := none
      newPid := r.postPid
      newComm := strscpy acMaxComm r.postComm }

/-- The event for a handoff the worker waited for. -/
def transferEvent (ret : ℤ) : AcEmit :=
  if ret = 0 then
    ⟨.fork, r.newPid, r.newComm,
      s!"child of protected pid {r.srcPid} ({r.srcComm}) exec'd before fork-inherit landed; " ++
        "protection transferred to the new image"⟩
  else
    ⟨.info, r.newPid, r.newComm,
      s!"child of protected pid {r.srcPid} ({r.srcComm}) exec'd before fork-inherit landed " ++
        s!"but new image NOT protected: {ret}"⟩

/-- The event for a handoff that did not come. -/
def lostEvent (ret : ℤ) : AcEmit :=
  ⟨.info, r.newPid, r.newComm,
    s!"child of protected pid {r.srcPid} ({r.srcComm}) exec handoff lost; registered pre-exec " ++
      s!"image instead (post-exec image may be unprotected): {ret}"⟩

/-- The event for a handoff that came during the registration. -/
def lateEvent (pid : ℤ) (comm : String) (ret : ℤ) : AcEmit :=
  if ret = 0 then
    ⟨.fork, pid, comm,
      s!"child of protected pid {r.srcPid} ({r.srcComm}) exec'd during fork-inherit " ++
        "registration; protection carried to the new image"⟩
  else
    ⟨.info, pid, comm,
      s!"child of protected pid {r.srcPid} ({r.srcComm}) exec'd during fork-inherit " ++
        s!"registration but new image NOT protected: {ret}"⟩

/-- The event for a plain fork-inherit. -/
def inheritEvent (ret : ℤ) : AcEmit :=
  if ret = 0 then
    ⟨.fork, r.newPid, r.newComm,
      s!"child of protected pid {r.srcPid} ({r.srcComm}); protection inherited"⟩
  else
    ⟨.info, r.newPid, r.newComm,
      s!"child of protected pid {r.srcPid} ({r.srcComm}) NOT protected: {ret}"⟩

/-- The event for a rekey whose old mm has other users. -/
def keptEvent : AcEmit :=
  ⟨.fork, r.newPid, r.newComm,
    s!"pid {r.srcPid} exec'd out of a protected address space still in use; new image " ++
      "protected, existing entry kept"⟩

/-- The event for a rekey that removed the old entry. -/
def rekeyEvent : AcEmit :=
  ⟨.exec, r.newPid, r.newComm,
    s!"protected pid {r.srcPid} re-exec'd; protection carried to new image"⟩

/-- The event for a rekey that could not register the new image. -/
def rekeyFailedEvent (ret : ℤ) : AcEmit :=
  ⟨.info, r.srcPid, r.srcComm,
    s!"protected pid {r.srcPid} re-exec'd but NOT re-registered: {ret}"⟩

end AcProtAddReq

/-- The event of `ac_exec_entry` for a registered mm. -/
def execInvokedEvent (pid : ℤ) (comm : String) : AcEmit :=
  ⟨.info, pid, comm, "execve() invoked (path is a user pointer, not resolved)"⟩

/-- The event of `ac_clone_ret` when no request can be allocated. -/
def cloneDroppedEvent (cpid : ℤ) (ccomm : String) (ppid : ℤ) (pcomm : String) : AcEmit :=
  ⟨.info, cpid, ccomm,
    s!"child of protected pid {ppid} ({pcomm}) NOT protected: registration request dropped " ++
      "(alloc failure)"⟩

/-- The event of `ac_exec_ret` when no request can be allocated in place of the claimed one. -/
def handoffDroppedEvent (pid : ℤ) (comm : String) (c : ExecClaim) : AcEmit :=
  ⟨.info, pid, comm,
    s!"child of protected pid {c.parentPid} ({c.parentComm}) exec'd but new image NOT " ++
      "protected: registration request dropped (alloc failure)"⟩

/-- The event of `ac_exec_ret` when no rekey request can be allocated. -/
def rekeyDroppedEvent (pid : ℤ) (comm : String) : AcEmit :=
  ⟨.info, pid, comm,
    s!"protected pid {pid} re-exec'd but new image NOT protected: registration request " ++
      "dropped (alloc failure); old entry retained"⟩

/-! ### Queueing -/

namespace Handoff

variable (s : Handoff)

/-- `ac_schedule_prot_add_req` when the allocation succeeds at `a`. Only a fork-inherit request
is tagged and linked. -/
def enqueue (a : ℕ) (r : AcProtAddReq) : Handoff :=
  match r.oldMm with
  | none =>
    { s.setReq a (some { r with reqId := s.seq + 1, serial := s.serial + 1 }) with
      pending := a :: s.pending
      seq := s.seq + 1
      serial := s.serial + 1 }
  | some _ => s.setReq a (some r)

/-- `ac_schedule_prot_add_req`, at the address the allocation returns. If there is none the
references are dropped and the caller emits `failed`. -/
def schedule (addr : Option ℕ) (r : AcProtAddReq) (failed : AcEmit) : Option Handoff :=
  match addr with
  | none => some (((s.put r.mm).putOpt r.oldMm).emit failed)
  | some a => if (s.reqs a).isNone then some (s.enqueue a r) else none

/-! ### The exec handlers -/

/-- The loop of `ac_exec_pin_track`. -/
def pinTrack : Option PinSlot :=
  (List.finRange acExecPinMax).find? fun i => (s.pins i).isNone

/-- `ac_exec_entry` for a registered mm: pin it. -/
def execPin (x : InstId) (m : ℕ) (pid : ℤ) (comm : String) : Handoff :=
  let s' := ((s.get m).setExec x (some (.pinned (s.nextRef m) s.pinTrack))).emit
    (execInvokedEvent pid comm)
  match s.pinTrack with
  | none => s'
  | some i => { s'.setPin i (some (s.nextRef m)) with owner := Function.update s.owner i x }

/-- The scan of `ac_pending_forks` in `ac_exec_entry`. -/
def findClaimable (m : ℕ) (tgid : ℤ) : Option (ℕ × AcProtAddReq) :=
  s.pending.findSome? fun a =>
    (s.reqs a).bind fun r => if r.claimable m tgid then some (a, r) else none

/-- `ac_exec_entry` for an mm that is not registered: claim a pending request for it. -/
def execScan (x : InstId) (m : ℕ) (tgid : ℤ) : Handoff :=
  match s.findClaimable m tgid with
  | none => s.setExec x (some .plain)
  | some (a, r) =>
    (s.setReq a (some { r with claimed := true })).setExec x
      (some (.claimed ⟨a, r.reqId, r.jitAllowed, r.srcPid, r.srcComm, r.serial⟩))

/-- The claimed request, if it is still linked: the address and the tag have to agree. -/
def findClaimed (c : ExecClaim) : Option AcProtAddReq :=
  if c.pendingReq ∈ s.pending then
    (s.reqs c.pendingReq).filter fun r => r.reqId == c.pendingId
  else none

/-- `drop = pr->post_mm; pr->post_mm = new_mm` and what belongs to it. -/
def postMm (a : ℕ) (r : AcProtAddReq) (m : ℕ) (pid : ℤ) (comm : String) : Handoff :=
  { ((s.get m).setReq a (some
      { r with
        postMm := some (s.nextRef m)
        postPid := pid
        postComm := strscpy acMaxComm comm
        handoffDone := true })).putOpt r.postMm with
    hist :=
      { s.hist with
        superseded :=
          match r.postMm with
          | none => s.hist.superseded
          | some p => s.hist.superseded ++ [(r.serial, p.mm)] } }

/-- `ac_exec_ret` for a claimed request; `m` is `current->mm`. -/
def execHandoff (x : InstId) (c : ExecClaim) (m : Option ℕ) (pid : ℤ) (comm : String) :
    Handoff :=
  match m, s.findClaimed c with
  | some m, some r =>
    (s.postMm c.pendingReq r m pid comm).setExec x none
  | some m, none => (s.get m).setExec x (some (.requeue c (s.nextRef m) pid comm))
  | none, some r =>
    (s.setReq c.pendingReq (some { r with handoffDone := true })).setExec x none
  | none, none => s.setExec x none

/-- The rest of `ac_exec_ret` when the claimed request is gone. -/
def execRequeue (x : InstId) (c : ExecClaim) (mm : Ref) (pid : ℤ) (comm : String)
    (addr : Option ℕ) : Option Handoff :=
  (s.setExec x none).schedule addr
    (.make mm none pid comm c.parentPid c.parentComm c.jitAllowed) (handoffDroppedEvent pid comm c)

/-- `ac_exec_pin_untrack` -/
def pinUntrack (slot : Option PinSlot) : Handoff :=
  { s with
    pins :=
      match slot with
      | none => s.pins
      | some i => Function.update s.pins i none }

/-- `ac_exec_ret` for a pinned mm; `jit` is what `ac_prot_jit_allowed_mm(old_mm)` returns. -/
def execRekey (x : InstId) (old : Ref) (slot : Option PinSlot) (rc : ℤ) (m : Option ℕ) (pid : ℤ)
    (comm : String) (jit : Bool) (addr : Option ℕ) : Option Handoff :=
  let s' := (s.pinUntrack slot).setExec x none
  if rc ≠ 0 then some (s'.put old)
  else
    match m with
    | none => some (s'.put old)
    | some m =>
      if m = old.mm then some (((s'.get m).put old).put (s.nextRef m))
      else
        (s'.get m).schedule addr (.make (s.nextRef m) (some old) pid comm pid comm jit)
          (rekeyDroppedEvent pid comm)

/-- Every exec kretprobe is unregistered and none of their handlers is running. -/
def probesGone : Bool :=
  decide (∀ k, s.registered k = false) &&
    decide (∀ x, (s.execs x).all fun i => !i.inHandler)

/-- One iteration of `ac_exec_pins_drop_all`. -/
def dropPin (i : PinSlot) : Handoff :=
  { (s.setPin i none).putOpt (s.pins i) with dropNext := i + 1 }

/-! ### The clone handler -/

/-- `ac_clone_ret` once `get_task_mm(child)` has returned `m`; `cur` is `current->mm`. -/
def cloneGet (y : CloneId) (m cur : ℕ) (cpid : ℤ) (ccomm : String) : Handoff :=
  if m = cur then (s.get m).put (s.nextRef m)
  else (s.get m).setClone y (some ⟨s.nextRef m, cpid, ccomm⟩)

/-- The rest of `ac_clone_ret`; `jit` is what `ac_prot_jit_allowed_mm(current->mm)` returns. -/
def cloneSchedule (y : CloneId) (c : CloneInst) (ppid : ℤ) (pcomm : String) (jit : Bool)
    (addr : Option ℕ) : Option Handoff :=
  (s.setClone y none).schedule addr (.make c.childMm none c.cpid c.ccomm ppid pcomm jit)
    (cloneDroppedEvent c.cpid c.ccomm ppid pcomm)

/-! ### The worker -/

/-- Up to the wait of a claimed request or the call to `ac_add_prot_mm`. -/
def workStart (a : ℕ) (r : AcProtAddReq) : Handoff :=
  if r.oldMm.isNone && r.claimed then s.setReq a (some { r with pc := .waiting })
  else (s.setReq a (some { r with pc := .addMm })).pass r.serial r.mm.mm

/-- Up to the call to `ac_add_prot_mm` for a claimed request. -/
def workAdopt (a : ℕ) (r : AcProtAddReq) : Option Ref → Handoff
  | some p =>
    let s' := ((s.put r.mm).setReq a (some { r with mm := p, pc := .addPost })).pass r.serial p.mm
    { s' with
      hist := { s'.hist with replaced := s.hist.replaced ++ [(r.serial, r.mm.mm, p.mm)] } }
  | none => (s.setReq a (some { r with pc := .addLost })).pass r.serial r.mm.mm

/-- The critical section that unlinks an unclaimed request, and what follows it. -/
def workUnlink (a : ℕ) (r : AcProtAddReq) (ret : ℤ) : Handoff :=
  match r.postMm with
  | none => ((s.unlink a).setReq a (some { r with pc := .putMm })).emit (r.inheritEvent ret)
  | some p =>
    if p.mm = r.mm.mm then
      (((s.unlink a).setReq a (some { r with postMm := none, pc := .putMm })).put p).emit
        (r.inheritEvent ret)
    else
      ((s.unlink a).setReq a
        (some { r with postMm := none, pc := .addLate ret p r.postPid r.postComm })).pass
          r.serial p.mm

/-- The rekey branch; `shared` is the comparison `atomic_read(&r->old_mm->mm_users) > 1`. -/
def workUsers (a : ℕ) (r : AcProtAddReq) (ret : ℤ) (shared : Bool) : Handoff :=
  if ret = 0 ∧ shared then (s.setReq a (some { r with pc := .putOld })).emit r.keptEvent
  else if ret = 0 then s.setReq a (some { r with pc := .delOld })
  else (s.setReq a (some { r with pc := .putOld })).emit (r.rekeyFailedEvent ret)

end Handoff

/-! ### The transition system -/

/-- The steps of `ac_prot_add_worker`. -/
inductive WorkAct where
  | start
  /-- the wait is over, by the completion or by the timeout -/
  | wake (timedOut : Bool)
  | adopt
  /-- `ac_add_prot_mm` returns -/
  | added (ret : ℤ)
  | unlink
  | users (shared : Bool)
  /-- `ac_del_prot_mm` returns -/
  | deleted
  | putOld
  | finish
  deriving DecidableEq, Repr

inductive HandoffAct where
  /-- `ac_exec_entry` in a registered mm -/
  | entryPin (x : InstId) (m : ℕ) (pid : ℤ) (comm : String)
  /-- the registry check of `ac_exec_entry` in an mm that is not registered -/
  | entryMiss (x : InstId)
  | entryScan (x : InstId) (m : ℕ) (tgid : ℤ)
  /-- `ac_exec_ret`; `m` is `current->mm` -/
  | execRet (x : InstId) (rc : ℤ) (m : Option ℕ) (pid : ℤ) (comm : String) (jit : Bool)
      (addr : Option ℕ)
  | requeue (x : InstId) (addr : Option ℕ)
  /-- an exec returns whose probe is no longer registered -/
  | discard (x : InstId)
  /-- `unregister_kretprobe` -/
  | unregister (k : ExecProbe)
  | dropPin
  | cloneGet (y : CloneId) (m cur : ℕ) (cpid : ℤ) (ccomm : String)
  | cloneSchedule (y : CloneId) (ppid : ℤ) (pcomm : String) (jit : Bool) (addr : Option ℕ)
  | work (a : ℕ) (w : WorkAct)
  deriving DecidableEq, Repr

namespace Handoff

/-- A step of `ac_prot_add_worker` for the request `r` at `a`. -/
def work (s : Handoff) (a : ℕ) (r : AcProtAddReq) (w : WorkAct) : Option Handoff :=
  match w, r.pc with
  | .start, .queued => some (s.workStart a r)
  | .wake timedOut, .waiting =>
    if timedOut || r.handoffDone then some ((s.unlink a).setReq a (some r.consume)) else none
  | .adopt, .consumed post => some (s.workAdopt a r post)
  | .added ret, .addPost =>
    some ((s.setReq a (some { r with pc := .putMm })).emit (r.transferEvent ret))
  | .added ret, .addLost =>
    some ((s.setReq a (some { r with pc := .putMm })).emit (r.lostEvent ret))
  | .added ret, .addMm => some (s.setReq a (some { r with pc := .added ret }))
  | .added ret, .addLate ret₁ post pid comm =>
    some ((((s.setReq a (some { r with pc := .putMm })).emit (r.lateEvent pid comm ret)).put
      post).emit (r.inheritEvent ret₁))
  | .unlink, .added ret => if r.oldMm.isNone then some (s.workUnlink a r ret) else none
  | .users shared, .added ret =>
    if r.oldMm.isSome then some (s.workUsers a r ret shared) else none
  | .deleted, .delOld => some ((s.setReq a (some { r with pc := .putOld })).emit r.rekeyEvent)
  | .putOld, .putOld => some ((s.setReq a (some { r with pc := .putMm })).putOpt r.oldMm)
  | .finish, .putMm => some ((s.setReq a none).put r.mm)
  | _, _ => none

def step (s : Handoff) : HandoffAct → Option Handoff
  | .entryPin x m pid comm =>
    if s.registered x.1 && (s.execs x).isNone then some (s.execPin x m pid comm) else none
  | .entryMiss x =>
    if s.registered x.1 && (s.execs x).isNone then some (s.setExec x (some .scanning)) else none
  | .entryScan x m tgid =>
    match s.execs x with
    | some .scanning => some (s.execScan x m tgid)
    | _ => none
  | .execRet x rc m pid comm jit addr =>
    match s.registered x.1, s.execs x with
    | true, some .plain => some (s.setExec x none)
    | true, some (.claimed c) => some (s.execHandoff x c m pid comm)
    | true, some (.pinned old slot) => s.execRekey x old slot rc m pid comm jit addr
    | _, _ => none
  | .requeue x addr =>
    match s.execs x with
    | some (.requeue c mm pid comm) => s.execRequeue x c mm pid comm addr
    | _ => none
  | .discard x =>
    if s.registered x.1 then none
    else
      match s.execs x with
      | some i => if i.inHandler then none else some (s.setExec x none)
      | none => none
  | .unregister k => some { s with registered := Function.update s.registered k false }
  | .dropPin =>
    if h : s.dropNext < acExecPinMax then
      if s.probesGone then some (s.dropPin ⟨s.dropNext, h⟩) else none
    else none
  | .cloneGet y m cur cpid ccomm =>
    if (s.clones y).isNone then some (s.cloneGet y m cur cpid ccomm) else none
  | .cloneSchedule y ppid pcomm jit addr =>
    (s.clones y).bind fun c => s.cloneSchedule y c ppid pcomm jit addr
  | .work a w => (s.reqs a).bind fun r => s.work a r w

end Handoff

end Anticheat
