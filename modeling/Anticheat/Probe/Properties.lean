import Anticheat.Probe.Basic
import Anticheat.Registry.Rules

/-!
# What the deny probes deny

A handler either leaves the call, the registers and the module as they are or denies the call.
The main result says for which register values a call on a protected task is denied: the target
that counts is the one the kernel itself resolves, from the pid register cut to 32 bits.
-/

namespace Anticheat

variable {M : Type} {p : Probe} {env : ProbeEnv M} {args : SyscallFrame} {regs : ProbeRegs}
variable {s : ProbeState M}

/-- The wrapper runs with -1 in the slot of its first argument, the request of `ptrace` or the pid
of `process_vm_*`, or it is skipped with the error of the call. -/
def ProbeResult.Denies (r : ProbeResult M) (p : Probe) : Prop :=
  (r.ret = 0 ∧ r.args.reg p.firstReg = -1) ∨ (r.ret = 1 ∧ r.regs = acSkipSyscall p.err)

/-- The tail of a denial always denies, whether or not the write to the frame faults. -/
lemma denyCall_denies (d : Denial) (hslot : d.slot = p.firstReg) (herr : d.err = p.err) :
    (denyCall env args regs s d).Denies p := by
  unfold denyCall acKwriteLong
  by_cases hw : args.writable d.slot = true
  · left
    simp [hw, ← hslot]
  · right
    simp [hw, herr]

lemma allowCall_denies : (allowCall args regs s).Denies p ↔ args.reg p.firstReg = -1 := by
  simp [ProbeResult.Denies, allowCall]

section Targets

variable [DecidableEq M] {t : Task M} {request target : BitVec 64}

/-- `ac_ptrace_pre` on a request for a protected task of another thread group: the sign test is
made on the whole register. -/
lemma ptraceTarget_of_protected (hreq : request ≠ ptraceTraceme)
    (hfind : env.tasks.find (pidT target) = some t)
    (hprot : acIsProtectedMm s.prots t.mm = true)
    (hgroup : sameThreadGroup t env.current = false) :
    ptraceTarget env s request target =
      if 0 < target.toInt then some (pidT target, t.comm, true) else none := by
  simp [ptraceTarget, hreq, acFindTask, hfind, hgroup, acIsProtectedTaskMm, hprot]

/-- `ac_process_vm_pre` cuts the register first, and a task's pid is positive. -/
lemma processVmTarget_of_protected (hfind : env.tasks.find (pidT target) = some t)
    (hprot : acIsProtectedMm s.prots t.mm = true)
    (hgroup : sameThreadGroup t env.current = false) :
    processVmTarget env s (pidT target) = some t := by
  have hpos := env.tasks.pos _ _ hfind
  simp [processVmTarget, not_le.mpr hpos, acFindTask, hfind, hgroup, acIsProtectedTaskMm, hprot]

end Targets

section Handlers

variable [DecidableEq M]

/-- With a readable frame `ac_ptrace_pre` is a function of its two registers. -/
lemma acPtracePre_of_readable (hfirst : args.readable p.firstReg = true)
    (hsecond : args.readable p.secondReg = true) :
    acPtracePre p env args regs s =
      match ptraceTarget env s (args.reg p.firstReg) (args.reg p.secondReg) with
      | some (pid, tcomm, kill) =>
        denyCall env args regs s
          ⟨true, pid, tcomm, ptraceSummary, ptraceText (args.reg p.firstReg) env.current, kill,
            p.firstReg, -5⟩
      | none => allowCall args regs s := by
  have h1 : acKread args p.firstReg = some (args.reg p.firstReg) := by simp [acKread, hfirst]
  have h2 : acKread args p.secondReg = some (args.reg p.secondReg) := by simp [acKread, hsecond]
  unfold acPtracePre
  generalize acKread args p.firstReg = first at h1 ⊢
  generalize acKread args p.secondReg = second at h2 ⊢
  subst h1 h2
  rfl

lemma acProcessVmPre_of_readable (hfirst : args.readable p.firstReg = true) :
    acProcessVmPre p env args regs s =
      match processVmTarget env s (pidT (args.reg p.firstReg)) with
      | some t =>
        denyCall env args regs s
          ⟨false, pidT (args.reg p.firstReg), t.comm, processVmSummary,
            processVmText p env.current, true, p.firstReg, -3⟩
      | none => allowCall args regs s := by
  have h1 : acKread args p.firstReg = some (args.reg p.firstReg) := by simp [acKread, hfirst]
  unfold acProcessVmPre
  generalize acKread args p.firstReg = first at h1 ⊢
  subst h1
  rfl

/-- A call on a protected task of another thread group is denied for exactly these registers: any
for `process_vm_*`, and for `ptrace` those whose pid is positive as a 64-bit number, or whose
request is -1 to begin with. -/
theorem handler_denies_iff (p : Probe) (env : ProbeEnv M) (args : SyscallFrame)
    (regs : ProbeRegs) (s : ProbeState M) (t : Task M)
    (hfirst : args.readable p.firstReg = true)
    (hsecond : p.isPtrace = true → args.readable p.secondReg = true)
    (hreq : p.isPtrace = true → args.reg p.firstReg ≠ ptraceTraceme)
    (hfind : env.tasks.find (pidT (args.reg p.pidReg)) = some t)
    (hprot : acIsProtectedMm s.prots t.mm = true)
    (hgroup : sameThreadGroup t env.current = false) :
    (p.handler env args regs s).Denies p ↔
      (p.isPtrace = true → 0 < (args.reg p.pidReg).toInt ∨ args.reg p.firstReg = -1) := by
  unfold Probe.handler
  cases hp : p.isPtrace with
  | true =>
    have hpid : p.pidReg = p.secondReg := by simp [Probe.pidReg, hp]
    rw [hpid] at hfind ⊢
    simp only [if_true, true_implies]
    rw [acPtracePre_of_readable hfirst (hsecond hp),
      ptraceTarget_of_protected (hreq hp) hfind hprot hgroup]
    by_cases hpos : 0 < (args.reg p.secondReg).toInt
    · simp only [hpos, if_true, true_or, iff_true]
      exact denyCall_denies _ rfl (by simp [Probe.err, hp])
    · simp only [hpos, if_false, false_or]
      exact allowCall_denies
  | false =>
    have hpid : p.pidReg = p.firstReg := by simp [Probe.pidReg, hp]
    rw [hpid] at hfind
    simp only [Bool.false_eq_true, if_false, false_implies, iff_true]
    rw [acProcessVmPre_of_readable hfirst, processVmTarget_of_protected hfind hprot hgroup]
    exact denyCall_denies _ rfl (by simp [Probe.err, hp])

end Handlers

/-! ### One protected task, one caller -/

/-- Task 100 runs in mm 7, which slot 0 protects; the caller is task 200. -/
def gameEnv : ProbeEnv ℕ where
  current := ⟨200, 200, some 8, "cheat"⟩
  tasks :=
    { find := fun pid => if pid = 100 then some ⟨100, 100, some 7, "game"⟩ else none
      pos := fun pid t h => by
        split_ifs at h with hpid
        rw [hpid]
        decide }
  jiffies := 0
  hz := 1000
  now := 0
  policy := 1
  killAlloc := true

def gameState : ProbeState ℕ where
  prots := Function.update (fun _ => AcProtEntry.empty) 0
    { AcProtEntry.empty with mm := .mm 7, pid := 100, comm := "game" }
  rlPtrace := ⟨0, 0, 0⟩
  rlVm := ⟨0, 0, 0⟩
  ring := AcRing.init
  kills := []
  killDropped := 0

/-- `ptrace(PTRACE_ATTACH, pid)` with a frame that can be read and written. -/
def attachFrame (pid : BitVec 64) : SyscallFrame where
  reg := fun
    | .di => 16
    | .si => pid
    | _ => 0
  readable := fun _ => true
  writable := fun _ => true

theorem handler_denies_attach :
    (Probe.ptrace.handler gameEnv (attachFrame 100) ⟨0, .kernel 0⟩ gameState).Denies .ptrace :=
  (handler_denies_iff .ptrace gameEnv (attachFrame 100) ⟨0, .kernel 0⟩ gameState
    ⟨100, 100, some 7, "game"⟩ rfl (fun _ => rfl) (fun _ => by decide) rfl (by decide) rfl).mpr
    fun _ => .inl (by decide)

/-- With bit 63 of the pid register set, the sign test of `ac_ptrace_pre` fails while the kernel
still resolves task 100, and the attach runs as it is. -/
theorem handler_allows_sign_bit :
    gameEnv.tasks.find (pidT 0xffffffff00000064) = some ⟨100, 100, some 7, "game"⟩ ∧
    acIsProtectedMm gameState.prots (some 7) = true ∧
    sameThreadGroup ⟨100, 100, some 7, "game"⟩ gameEnv.current = false ∧
    Probe.ptrace.handler gameEnv (attachFrame 0xffffffff00000064) ⟨0, .kernel 0⟩ gameState =
      allowCall (attachFrame 0xffffffff00000064) ⟨0, .kernel 0⟩ gameState ∧
    ¬ (Probe.ptrace.handler gameEnv (attachFrame 0xffffffff00000064) ⟨0, .kernel 0⟩
      gameState).Denies .ptrace := by
  have hallow : Probe.ptrace.handler gameEnv (attachFrame 0xffffffff00000064) ⟨0, .kernel 0⟩
      gameState = allowCall (attachFrame 0xffffffff00000064) ⟨0, .kernel 0⟩ gameState := rfl
  refine ⟨rfl, by decide, rfl, hallow, ?_⟩
  rw [hallow, allowCall_denies]
  decide

end Anticheat
