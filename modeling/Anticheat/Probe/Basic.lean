import Anticheat.Registry.Basic
import Anticheat.Ring.Basic
import Mathlib.Data.BitVec

/-!
# The syscall-deny probes

`ac_ptrace_pre` and `ac_process_vm_pre`, the pre-handlers on the system call wrappers of `ptrace`
and `process_vm_readv`/`process_vm_writev`. A handler runs before the first instruction of the
wrapper: it reads the arguments from the frame that the wrapper will unpack, and denies the call
by overwriting one of them or, when that write faults, by skipping the wrapper.
-/

namespace Anticheat

/-! ### Frames and registers -/

/-- The argument registers of a system call's `pt_regs` frame that the handlers touch. -/
inductive ArgReg where
  | bx
  | cx
  | di
  | si
  deriving DecidableEq, Repr

/-- The frame behind `regs->di`, with the slots that can be read and written without a fault. -/
structure SyscallFrame where
  reg : ArgReg → BitVec 64
  readable : ArgReg → Bool
  writable : ArgReg → Bool

/-- `ac_kread` of one register slot. -/
def acKread (args : SyscallFrame) (r : ArgReg) : Option (BitVec 64) :=
  if args.readable r then some (args.reg r) else none

/-- `ac_kwrite_long` to one register slot. -/
def acKwriteLong (args : SyscallFrame) (r : ArgReg) (val : BitVec 64) : Option SyscallFrame :=
  if args.writable r then some { args with reg := Function.update args.reg r val } else none

/-- Where the probed CPU continues. -/
inductive CodeAddr where
  | kernel (addr : BitVec 64)
  | acRetStub
  deriving DecidableEq, Repr

/-- The registers of the probed CPU that `ac_skip_syscall` changes. -/
structure ProbeRegs where
  ax : BitVec 64
  ip : CodeAddr
  deriving DecidableEq, Repr

/-- `ac_skip_syscall` -/
def acSkipSyscall (err : ℤ) : ProbeRegs := ⟨BitVec.ofInt 64 err, .acRetStub⟩

/-- `(pid_t)x` for a register value. -/
def pidT (x : BitVec 64) : ℤ := (x.setWidth 32).toInt

/-! ### The probes -/

/-- The seven kprobes of `ac_kprobes[]`. -/
inductive Probe where
  | ptrace
  | ptrace32
  | ptraceX32
  | processVmReadv
  | processVmReadv32
  | processVmWritev
  | processVmWritev32
  deriving DecidableEq, Repr

def Probe.isPtrace : Probe → Bool
  | .ptrace => true
  | .ptrace32 => true
  | .ptraceX32 => true
  | _ => false

/-- The wrapper unpacks the ia32 registers. The x32 stub of `ptrace` unpacks the native ones. -/
def Probe.isCompat : Probe → Bool
  | .ptrace32 => true
  | .processVmReadv32 => true
  | .processVmWritev32 => true
  | _ => false

/-- The register of the first argument: the request of `ptrace`, the pid of `process_vm_*`. -/
def Probe.firstReg (p : Probe) : ArgReg := if p.isCompat then .bx else .di

/-- The register of the second argument, the pid of `ptrace`. -/
def Probe.secondReg (p : Probe) : ArgReg := if p.isCompat then .cx else .si

def Probe.pidReg (p : Probe) : ArgReg := if p.isPtrace then p.secondReg else p.firstReg

/-- The two errors the wrappers are skipped with: `-EIO` and `-ESRCH`. -/
def Probe.err (p : Probe) : ℤ := if p.isPtrace then -5 else -3

/-! ### Tasks -/

structure Task (M : Type) where
  pid : ℤ
  tgid : ℤ
  mm : Option M
  comm : String

/-- The task table as the caller's pid namespace shows it. No task has a pid number below 1. -/
structure TaskTable (M : Type) where
  find : ℤ → Option (Task M)
  pos : ∀ pid t, find pid = some t → 0 < pid

/-- `ac_find_task` -/
def acFindTask {M : Type} (tasks : TaskTable M) (pid : ℤ) : Option (Task M) := tasks.find pid

def sameThreadGroup {M : Type} (t u : Task M) : Bool := t.tgid == u.tgid

/-- `ac_is_protected_task_mm` -/
def acIsProtectedTaskMm {M : Type} [DecidableEq M] (prots : Slot → AcProtEntry M) (t : Task M) :
    Bool :=
  acIsProtectedMm prots t.mm

/-! ### The rate limit for denial events -/

/-- `AC_DENY_EV_BURST` -/
def acDenyEvBurst : BitVec 32 := 8

/-- `struct ac_deny_rl` -/
structure AcDenyRl where
  windowStart : BitVec 64
  n : BitVec 32
  suppressed : BitVec 32
  deriving DecidableEq, Repr

/-- The kernel's `time_after`: `a` is later than `b`, modulo wrap-around. -/
def timeAfter (a b : BitVec 64) : Bool := (b - a).slt 0

/-- `ac_deny_event_allowed`: whether the event may be emitted, how many were dropped in the window
that just closed, and the limiter afterwards. -/
def acDenyEventAllowed (jiffies hz : BitVec 64) (rl : AcDenyRl) : Bool × BitVec 32 × AcDenyRl :=
  let reset := rl.n == 0 || timeAfter jiffies (rl.windowStart + hz)
  let suppressed := if reset then rl.suppressed else 0
  let rl : AcDenyRl := if reset then ⟨jiffies, 0, 0⟩ else rl
  let ok := rl.n.ult acDenyEvBurst
  (ok, suppressed, if ok then { rl with n := rl.n + 1 }
    else { rl with suppressed := rl.suppressed + 1 })

/-! ### The handlers -/

/-- What a handler reads besides the frame: the caller, the tasks, the clocks, `ac_policy`, and
whether `mempool_alloc` gives it a kill request. -/
structure ProbeEnv (M : Type) where
  current : Task M
  tasks : TaskTable M
  jiffies : BitVec 64
  hz : BitVec 64
  now : BitVec 64
  policy : BitVec 32
  killAlloc : Bool

/-- The state of the module that the handlers touch. -/
structure ProbeState (M : Type) where
  prots : Slot → AcProtEntry M
  rlPtrace : AcDenyRl
  rlVm : AcDenyRl
  ring : AcRing
  /-- pids with a queued `ac_kill_worker` -/
  kills : List ℤ
  killDropped : BitVec 32

/-- The return value of a pre-handler, the frame, the registers and the module afterwards. A
return of 0 lets the wrapper run on the frame, a return of 1 continues at the registers' `ip`. -/
structure ProbeResult (M : Type) where
  ret : ℕ
  args : SyscallFrame
  regs : ProbeRegs
  state : ProbeState M

variable {M : Type}

/-- `ac_schedule_kill` -/
def acScheduleKill (env : ProbeEnv M) (s : ProbeState M) : ProbeState M :=
  if env.killAlloc then { s with kills := s.kills ++ [env.current.pid] }
  else { s with killDropped := s.killDropped + 1 }

/-- What the two handlers pass to the common tail of a denial. -/
structure Denial where
  isPtrace : Bool
  target : ℤ
  tcomm : String
  summary : BitVec 32 → String
  text : String
  kill : Bool
  slot : ArgReg
  err : ℤ

/-- The event type and the limiter of a denial. -/
def Denial.type (d : Denial) : AcEv := if d.isPtrace then .ptrace else .processVm

/-- The rate-limited events of a denial. -/
def Denial.log (d : Denial) (env : ProbeEnv M) (s : ProbeState M) : ProbeState M :=
  let rl := if d.isPtrace then s.rlPtrace else s.rlVm
  let (ok, suppressed, rl) := acDenyEventAllowed env.jiffies env.hz rl
  let s := if d.isPtrace then { s with rlPtrace := rl } else { s with rlVm := rl }
  if ok then
    let ring := if suppressed ≠ 0 then
        acEmit env.now ⟨d.type, d.target, d.tcomm, d.summary suppressed⟩ s.ring
      else s.ring
    { s with ring := acEmit env.now ⟨d.type, d.target, d.tcomm, d.text⟩ ring }
  else s

/-- The common tail of a denial: log, kill by policy, neutralise the slot, and fail closed. -/
def denyCall (env : ProbeEnv M) (args : SyscallFrame) (regs : ProbeRegs) (s : ProbeState M)
    (d : Denial) : ProbeResult M :=
  let s := d.log env s
  let killed := d.kill && env.policy.getLsbD 0
  let s := if killed then acScheduleKill env s else s
  match acKwriteLong args d.slot (-1) with
  | some args => ⟨0, args, regs, s⟩
  | none => ⟨1, args, acSkipSyscall d.err, if killed then s else acScheduleKill env s⟩

/-- A handler that leaves the call alone. -/
def allowCall (args : SyscallFrame) (regs : ProbeRegs) (s : ProbeState M) : ProbeResult M :=
  ⟨0, args, regs, s⟩

/-- `PTRACE_TRACEME` -/
def ptraceTraceme : BitVec 64 := 0

def ptraceSummary (n : BitVec 32) : String :=
  let k := n.toNat
  s!"{k} further ptrace denial(s) not logged (rate limit)"

def ptraceText (request : BitVec 64) (current : Task M) : String :=
  let req := request.toInt
  let pid := current.pid
  let ccomm := strscpy acMaxComm current.comm
  s!"ptrace req {req} by pid {pid} ({ccomm}) DENIED"

/-- The denial that `ac_ptrace_pre` decides on: the target with its name, and whether the policy
may kill the caller. -/
def ptraceTarget [DecidableEq M] (env : ProbeEnv M) (s : ProbeState M)
    (request target : BitVec 64) : Option (ℤ × String × Bool) :=
  if request = ptraceTraceme then
    if acIsProtectedMm s.prots env.current.mm then
      some (env.current.pid, env.current.comm, false)
    else none
  else if 0 < target.toInt then
    match acFindTask env.tasks (pidT target) with
    | some t =>
      if !sameThreadGroup t env.current && acIsProtectedTaskMm s.prots t then
        some (pidT target, t.comm, true)
      else none
    | none => none
  else none

/-- `ac_ptrace_pre` -/
def acPtracePre [DecidableEq M] (p : Probe) (env : ProbeEnv M) (args : SyscallFrame)
    (regs : ProbeRegs) (s : ProbeState M) : ProbeResult M :=
  match acKread args p.firstReg, acKread args p.secondReg with
  | some request, some target =>
    match ptraceTarget env s request target with
    | some (pid, tcomm, kill) =>
      denyCall env args regs s
        { isPtrace := true
          target := pid
          tcomm := tcomm
          summary := ptraceSummary
          text := ptraceText request env.current
          kill := kill
          slot := p.firstReg
          err := -5 }
    | none => allowCall args regs s
  | _, _ => allowCall args regs s

def processVmSummary (n : BitVec 32) : String :=
  let k := n.toNat
  s!"{k} further process_vm denial(s) not logged (rate limit)"

def processVmText (p : Probe) (current : Task M) : String :=
  let call := if p = .processVmReadv32 ∨ p = .processVmReadv then "readv" else "writev"
  let pid := current.pid
  let ccomm := strscpy acMaxComm current.comm
  s!"process_vm_{call} by pid {pid} ({ccomm}) DENIED"

/-- The task that `ac_process_vm_pre` denies access to. -/
def processVmTarget [DecidableEq M] (env : ProbeEnv M) (s : ProbeState M) (target : ℤ) :
    Option (Task M) :=
  if target ≤ 0 then none
  else
    match acFindTask env.tasks target with
    | some t =>
      if sameThreadGroup t env.current then none
      else if acIsProtectedTaskMm s.prots t then some t
      else none
    | none => none

/-- `ac_process_vm_pre` -/
def acProcessVmPre [DecidableEq M] (p : Probe) (env : ProbeEnv M) (args : SyscallFrame)
    (regs : ProbeRegs) (s : ProbeState M) : ProbeResult M :=
  match acKread args p.firstReg with
  | some rawTarget =>
    let target := pidT rawTarget
    match processVmTarget env s target with
    | some t =>
      denyCall env args regs s
        { isPtrace := false
          target := target
          tcomm := t.comm
          summary := processVmSummary
          text := processVmText p env.current
          kill := true
          slot := p.firstReg
          err := -3 }
    | none => allowCall args regs s
  | none => allowCall args regs s

/-- The pre-handler of a probe. -/
def Probe.handler [DecidableEq M] (p : Probe) (env : ProbeEnv M) (args : SyscallFrame)
    (regs : ProbeRegs) (s : ProbeState M) : ProbeResult M :=
  if p.isPtrace then acPtracePre p env args regs s else acProcessVmPre p env args regs s

end Anticheat
