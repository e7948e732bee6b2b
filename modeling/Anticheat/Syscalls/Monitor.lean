import Anticheat.Lib.Run
import Anticheat.Ring.Basic
import Anticheat.Syscalls.Check

/-!
# The monitor loop and the syscall table

The parts of `cmd_start` that report hooked syscalls: the drain of the event ring, which logs each
event and counts the `AC_EV_SYSCALL_HOOK` ones, and the periodic check, which logs a count of
hooked slots that stays above that for a whole period. The system adds what the kernel does
meanwhile.

`tags`, `since` and `fate` are histories; nothing reads them.
-/

namespace Anticheat.Syscalls

open Hash

variable {n : ℕ}

/-! ### The daemon -/

/-- `struct ac_sys_level` -/
structure AcSysLevel where
  accounted : ℕ
  prevExcess : ℕ
  deriving DecidableEq, Repr

/-- `sys_level_check` -/
def sysLevelCheck (lv : AcSysLevel) (cur : ℕ) : AcSysLevel × Bool :=
  let accounted := if lv.accounted > cur then cur else lv.accounted
  let excess := cur - accounted
  if excess ≠ 0 ∧ lv.prevExcess ≠ 0 then (⟨cur, 0⟩, true)
  else (⟨accounted, excess⟩, false)

/-- What makes the daemon write a line. -/
inductive LineKind where
  | event
  | stillHooked
  | stillRedirected
  | checksum
  | checkFailed
  | checkRecovered
  deriving DecidableEq, Repr

/-- One call of `logmsg`. -/
structure LogLine where
  prio : LogPrio
  text : String
  kind : LineKind
  deriving DecidableEq, Repr

/-- `ev_type_str` -/
def evTypeStr : AcEv → String
  | .fork => "FORK"
  | .exec => "EXEC"
  | .exit => "EXIT"
  | .ptrace => "PTRACE-DENIED"
  | .processVm => "PROCESS-VM-DENIED"
  | .syscallHook => "SYSCALL-HOOK"
  | .syscallRedirect => "SYSCALL-REDIRECT"
  | .rwx => "RWX"
  | .anonExec => "ANON-EXEC"
  | .info => "INFO"
  | .forkDropped => "FORK-DROPPED"

/-- The text with process and name that most events are logged with. -/
def eventText (e : AcEvent) : String :=
  evTypeStr e.type ++ " pid=" ++ toString e.pid ++ " comm=" ++ e.comm ++ " " ++ e.data

/-- The line that the drain writes for an event. -/
def eventLine (e : AcEvent) : LogLine :=
  if e.type = .ptrace ∨ e.type = .processVm then ⟨.alert, eventText e, .event⟩
  else if e.type = .syscallHook ∨ e.type = .syscallRedirect ∨ e.type = .forkDropped then
    ⟨.crit, evTypeStr e.type ++ " " ++ e.data, .event⟩
  else ⟨.info, eventText e, .event⟩

def stillHookedLine (hooked : ℕ) : LogLine :=
  ⟨.crit, "syscall table: " ++ toString hooked ++ " slot(s) still hooked outside core kernel " ++
    "text with no matching ring event logged (event ring overflow?)", .stillHooked⟩

def stillRedirectedLine (redirected : ℕ) : LogLine :=
  ⟨.crit, "syscall table: " ++ toString redirected ++ " slot(s) still redirected within core " ++
    "kernel text with no matching ring event logged (event ring overflow?)", .stillRedirected⟩

def checksumLine (c : AcSyscallCheck) : LogLine :=
  ⟨.crit, "syscall table checksum mismatch: boot=" ++ bytesText c.baselineSha256 ++ " current=" ++
    bytesText c.currentSha256 ++ " (handler churn not individually flagged)", .checksum⟩

/-- The static data of the loop. -/
structure Daemon where
  hookLevel : AcSysLevel
  redirectLevel : AcSysLevel
  checksumOnlyReported : Bool
  sysCheckFailing : Bool
  log : List LogLine

def Daemon.init : Daemon := ⟨⟨0, 0⟩, ⟨0, 0⟩, false, false, []⟩

/-- The body of the drain for one event: the line, and the counters. -/
def Daemon.event (d : Daemon) (e : AcEvent) : Daemon :=
  let d := { d with log := d.log ++ [eventLine e] }
  if e.type = .syscallHook then
    { d with hookLevel := { d.hookLevel with accounted := d.hookLevel.accounted + 1 } }
  else if e.type = .syscallRedirect then
    { d with redirectLevel := { d.redirectLevel with accounted := d.redirectLevel.accounted + 1 } }
  else d

/-- `check_syscalls_periodic` after the call succeeded -/
def Daemon.report (d : Daemon) (c : AcSyscallCheck) : Daemon :=
  let (hookLevel, hooked) := sysLevelCheck d.hookLevel c.hooked
  let (redirectLevel, redirected) := sysLevelCheck d.redirectLevel c.redirected
  let checksumOnly := c.hooked = 0 && c.redirected = 0 && c.checksumMismatch
  { d with
    hookLevel := hookLevel
    redirectLevel := redirectLevel
    checksumOnlyReported := checksumOnly
    log := d.log ++ (if hooked then [stillHookedLine c.hooked] else []) ++
      (if redirected then [stillRedirectedLine c.redirected] else []) ++
      (if checksumOnly && !d.checksumOnlyReported then [checksumLine c] else []) }

/-- The loop's part of the periodic check: `check_syscalls_periodic` and the note of a check that
cannot run. -/
def Daemon.check (d : Daemon) : Option AcSyscallCheck → Daemon
  | none =>
    { d with
      sysCheckFailing := true
      log := d.log ++ (if d.sysCheckFailing then [] else
        [⟨.warning, "periodic syscall table check failed: No such device", .checkFailed⟩]) }
  | some c =>
    let r := d.report c
    { r with
      sysCheckFailing := false
      log := r.log ++ (if d.sysCheckFailing then
        [⟨.info, "periodic syscall table check recovered", .checkRecovered⟩] else []) }

/-! ### The system -/

/-- What became of the hook event of a slot. An evicted one counts the periodic checks in a row
that found the slot hooked since. -/
inductive Fate where
  | fresh
  | queued
  | logged
  | evicted (checks : ℕ)
  deriving DecidableEq, Repr

/-- The table, the ring and the daemon. -/
structure Monitor (n : ℕ) where
  table : SyscallTable n
  ring : AcRing
  daemon : Daemon
  /-- for the entries of the ring, oldest first, the slots whose hook events they are -/
  tags : List (Option (Fin n))
  /-- the length of the log when the slot was first found hooked -/
  since : Fin n → Option ℕ
  fate : Fin n → Fate

/-- The module is loaded and the daemon starts. -/
def Monitor.init (base : UInt64) (k : TextBounds) (read : Fin n → Option UInt64) : Monitor n :=
  ⟨acCaptureSyscallBaseline (.init base k) read, .init, .init, [], fun _ => none, fun _ => .fresh⟩

/-- An `ac_emit` at a clock reading, and the slot if it reports a hook. -/
structure Push (n : ℕ) where
  now : BitVec 64
  emit : AcEmit
  slot : Option (Fin n)

/-- The hook event of a slot has a new fate. -/
def mark (o : Option (Fin n)) (f : Fate) (fate : Fin n → Fate) : Fin n → Fate :=
  match o with
  | none => fate
  | some i => Function.update fate i f

namespace Monitor

variable (m : Monitor n)

/-- The entry that an emit evicts. -/
def oldest : Option (Fin n) := if acRingSize ≤ m.tags.length then m.tags.head?.join else none

def push (x : Push n) : Monitor n :=
  { m with
    ring := acEmit x.now x.emit m.ring
    tags := (if acRingSize ≤ m.tags.length then m.tags.tail else m.tags) ++ [x.slot]
    since := match x.slot with
      | none => m.since
      | some i => Function.update m.since i (some m.daemon.log.length)
    fate := mark x.slot .queued (mark m.oldest (.evicted 0) m.fate) }

def pushAll (xs : List (Push n)) : Monitor n := xs.foldl push m

/-- A level-triggered line about hooked slots was written after the slot was found hooked. -/
def reported (i : Fin n) : Bool :=
  match m.since i with
  | none => false
  | some k => (m.daemon.log.drop k).any fun l => l.kind = .stillHooked

/-- The number of events that a drain takes. -/
def drained : ℕ := min m.ring.count acMaxEvents

/-- The slots whose hook events a drain takes. -/
def drainedSlots : List (Fin n) := (m.tags.take m.drained).filterMap id

/-- `GET_EVENTS` and the drain loop. -/
def drain : Monitor n :=
  let el := acPeekEvents m.ring
  { m with
    ring := acCommitEvents el.events.length el.removedBefore m.ring
    daemon := el.events.foldl Daemon.event m.daemon
    tags := m.tags.drop m.drained
    fate := m.drainedSlots.foldl (fun fate i => Function.update fate i .logged) m.fate }

end Monitor

/-- What others push before one of the events of a check, and the clock when it is pushed. -/
structure Gap where
  before : List (BitVec 64 × AcEmit)
  now : BitVec 64

/-- The emits during a check, in order. -/
def weave (gaps : ℕ → Gap) (emits : List (Fin n × AcEmit)) : List (Push n) :=
  emits.zipIdx.flatMap fun (x, k) =>
    (gaps k).before.map (fun (now, e) => ⟨now, e, none⟩) ++ [⟨(gaps k).now, x.2, hookSlot x⟩]

/-- Only the check of the table emits hook events. -/
def Push.wf (x : Push n) : Bool := x.slot.isSome = (x.emit.type = .syscallHook)

/-- No slot whose bit is set is found with another handler. -/
def persists (t : SyscallTable n) (p : Poll n) : Bool :=
  (List.finRange n).all fun i => !t.hooked i || (p.read i).isNone || hookSeen t.bounds p i

namespace Monitor

variable (m : Monitor n)

/-- `AC_IOCTL_CHECK_SYSCALLS`, with the answer; not enabled when a slot was unhooked. -/
def ioctlCheck (gaps : ℕ → Gap) (p : Poll n) : Option (Monitor n × Option AcSyscallCheck) :=
  if !persists m.table p then none
  else
    match acCheckSyscalls m.table p with
    | none => some (m, none)
    | some (t, emits, c) =>
      if (weave gaps emits).all Push.wf then
        some ({ m with table := t }.pushAll (weave gaps emits), some c)
      else none

/-- The evicted slots at a periodic check: one more check, or none in a row. -/
def counted (p : Poll n) : Monitor n :=
  { m with fate := fun i =>
      match m.fate i with
      | .evicted c => .evicted (if hookSeen m.table.bounds p i then c + 1 else 0)
      | f => f }

end Monitor

inductive Act (n : ℕ) where
  /-- another event of the kernel -/
  | push (now : BitVec 64) (e : AcEmit)
  /-- the daemon's drain -/
  | drain
  /-- the daemon's periodic check -/
  | check (gaps : ℕ → Gap) (p : Poll n)
  /-- a check of the table for another caller -/
  | otherCheck (gaps : ℕ → Gap) (p : Poll n)

def step (m : Monitor n) : Act n → Option (Monitor n)
  | .push now e => if e.type = .syscallHook then none else some (m.push ⟨now, e, none⟩)
  | .drain => some m.drain
  | .check gaps p => do
    let (m, c) ← (m.counted p).ioctlCheck gaps p
    return { m with daemon := m.daemon.check c }
  | .otherCheck gaps p => do
    let (m, _) ← m.ioctlCheck gaps p
    return m

/-- No event that a drain takes is of a slot that a level-triggered line already counted, and the
periodic check reads all slots that are hooked. -/
def undisturbed (m : Monitor n) : Act n → Bool
  | .drain => m.drainedSlots.all fun i => !m.reported i
  | .check _ p => (List.finRange n).all fun i => !m.table.hooked i || (p.read i).isSome
  | _ => true

end Anticheat.Syscalls
