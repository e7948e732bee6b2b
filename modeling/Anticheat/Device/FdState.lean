import Anticheat.Baseline.Runs
import Anticheat.Lib.Heap
import Anticheat.Lib.Linearized
import Anticheat.Modules.Crosscheck

/-!
# Snapshots behind a file descriptor

`SCAN_BEGIN`, `SCAN_GET` and `SCAN_END`, and the same three for modules, work on a `struct
ac_fd_state` that the first `BEGIN` allocates and that `private_data` of the open file points to.
The descriptor can be shared, so any number of calls may be under way: `ac_get_fd_state` looks at
`private_data` without a lock first and again under `ac_fd_state_alloc_lock`, and all work on the
snapshots is done under the lock of the state. A `BEGIN` that runs under it first drops the old
snapshot and later fills in the new one.

What the kernel answers to a call (whether a task is found, its address space, whether an
allocation or a copy from or to the caller fails) comes with the call.
-/

namespace Anticheat.Device

open Baseline Modules Linearize

/-! ### Building a snapshot -/

/-- A mapping with the flag that matters to a scan besides `exec`. -/
structure VmArea extends Vma where
  write : Bool

/-- `struct ac_vma_info` with this flag -/
structure VmaEntry extends AcVmaInfo where
  write : Bool
  deriving DecidableEq, Repr

def VmArea.entry (pathbuf : Bool) (a : VmArea) : VmaEntry := ⟨a.toVma.info pathbuf, a.write⟩

/-- `VM_EXEC` and `VM_WRITE` both set -/
def VmaEntry.rwx (e : VmaEntry) : Bool := e.exec && e.write

/-- Executable, with no file behind it -/
def VmaEntry.anonExec (e : VmaEntry) : Bool := !e.isFile && e.exec

/-- What the loop over the mappings has filled in. -/
structure VmaWalk where
  entries : List VmaEntry
  rwxCount : ℕ
  anonExecCount : ℕ
  execCount : ℕ
  truncated : Bool
  deriving DecidableEq, Repr

/-- The loop of `ac_build_vma_snapshot` -/
def vmaWalk (pathbuf : Bool) (w : VmaWalk) : List VmArea → VmaWalk
  | [] => w
  | a :: as =>
    if acMaxVmas ≤ w.entries.length then { w with truncated := true }
    else
      let vi := a.entry pathbuf
      vmaWalk pathbuf
        { entries := w.entries ++ [vi]
          rwxCount := if a.exec && a.write then w.rwxCount + 1 else w.rwxCount
          anonExecCount := if !vi.isFile && a.exec then w.anonExecCount + 1 else w.anonExecCount
          execCount := if a.exec then w.execCount + 1 else w.execCount
          truncated := w.truncated } as

/-- The events for one entry of the snapshot. -/
def VmaEntry.emits (pid : ℤ) (comm : String) (e : VmaEntry) : List AcEmit :=
  (if e.rwx then
    [⟨.rwx, pid, comm, "RWX mapping [0x" ++ lx e.start ++ "-0x" ++ lx e.stop ++ "] " ++
      if e.path ≠ [] then bytesText e.path else "(anonymous)"⟩] else []) ++
  if e.anonExec then
    [⟨.anonExec, pid, comm, "anonymous executable mapping [0x" ++ lx e.start ++ "-0x" ++
      lx e.stop ++ "]"⟩] else []

/-! ### The calls -/

/-- The errors the calls return. -/
inductive Errno where
  | einval
  | enomem
  | esrch
  | efault
  deriving DecidableEq, Repr

/-- Which of `copy_from_user` and `copy_to_user` fails. -/
inductive Fault where
  | none
  | fetch
  | store
  deriving DecidableEq, Repr

/-- What `ac_build_vma_snapshot` meets. -/
structure ScanTarget where
  /-- the host pid and the name of the task, if it is found -/
  task : Option (ℤ × String)
  /-- the mappings, if the task still has an address space -/
  mm : Option (List VmArea)
  /-- whether the array is allocated -/
  array : Bool
  /-- whether the buffer for the paths is allocated -/
  pathbuf : Bool
  emitEvents : Bool

/-- The calls; `kzalloc` is whether a state can be allocated for the descriptor. `MODS_BEGIN` only
copies to its caller. -/
inductive FdOp where
  | scanBegin (fault : Fault) (kzalloc : Bool) (target : ScanTarget)
  | scanGet (fault : Fault) (index : ℕ)
  | scanEnd
  | modsBegin (fails kzalloc array : Bool) (ring : List Module)
  | modsGet (fault : Fault) (index : ℕ)
  | modsEnd

/-- What `SCAN_BEGIN` returns in `struct ac_scan_begin`. -/
structure ScanHeader where
  resolvedPid : ℤ
  nVmas : ℕ
  rwxCount : ℕ
  execCount : ℕ
  anonExecCount : ℕ
  truncated : Bool
  deriving DecidableEq, Repr

/-- What a call returns. `wild` is a read outside of the array, or through a null pointer. -/
inductive FdRet where
  | ok
  | header (h : ScanHeader)
  | vma (e : VmaEntry)
  | count (n : ℕ)
  | mod (m : AcModInfo)
  | err (e : Errno)
  | wild
  deriving DecidableEq, Repr

/-- `copy_to_user` of a result -/
def deliver (fault : Fault) (r : FdRet) : FdRet := if fault = .store then .err .efault else r

def FdOp.fault : FdOp → Fault
  | .scanBegin fault .. | .scanGet fault _ | .modsGet fault _ => fault
  | .modsBegin fails .. => if fails then .store else .none
  | .scanEnd | .modsEnd => .none

/-- Whether the call goes through `ac_get_fd_state`. -/
def FdOp.begins : FdOp → Bool
  | .scanBegin .. | .modsBegin .. => true
  | .scanGet .. | .scanEnd | .modsGet .. | .modsEnd => false

def FdOp.kzalloc : FdOp → Bool
  | .scanBegin _ kzalloc _ | .modsBegin _ kzalloc .. => kzalloc
  | .scanGet .. | .scanEnd | .modsGet .. | .modsEnd => true

/-- What a call that does not begin a snapshot returns where there is no state. -/
def FdOp.absent : FdOp → FdRet
  | .scanGet .. | .modsGet .. => .err .einval
  | .scanBegin .. | .scanEnd | .modsBegin .. | .modsEnd => .ok

/-! ### The state -/

/-- `struct ac_fd_state`. The arrays are given by their allocation and the entries filled in. -/
structure AcFdState where
  self : ℕ
  lock : Option ℕ
  vmas : Option (ℕ × List VmaEntry)
  resolvedPid : ℤ
  nVmas : ℕ
  rwxCount : ℕ
  execCount : ℕ
  anonExecCount : ℕ
  truncated : Bool
  mods : Option (ℕ × List AcModInfo)
  nMods : ℕ
  deriving DecidableEq, Repr

namespace AcFdState

/-- As `kzalloc` and `mutex_init` leave it. -/
def zero (self : ℕ) : AcFdState := ⟨self, none, none, 0, 0, 0, 0, 0, false, none, 0⟩

/-- Drop the snapshot of the mappings, the array being freed. -/
def clearScan (st : AcFdState) : AcFdState :=
  { st with
    vmas := none, nVmas := 0, rwxCount := 0, execCount := 0, anonExecCount := 0
    truncated := false, resolvedPid := 0 }

def clearMods (st : AcFdState) : AcFdState := { st with mods := none, nMods := 0 }

def header (st : AcFdState) : ScanHeader :=
  ⟨st.resolvedPid, st.nVmas, st.rwxCount, st.execCount, st.anonExecCount, st.truncated⟩

/-- The allocations that the state refers to, with its own. -/
def allocs (st : AcFdState) : List ℕ :=
  (st.vmas.map Prod.fst).toList ++ ((st.mods.map Prod.fst).toList ++ [st.self])

end AcFdState

/-- Where a call is. -/
inductive FdPc where
  | entered
  /-- at `mutex_lock(&ac_fd_state_alloc_lock)` -/
  | allocLocking
  /-- before the second look at `private_data` -/
  | checking
  /-- before `smp_store_release` -/
  | publishing (p : ℕ)
  /-- before `mutex_unlock(&ac_fd_state_alloc_lock)` -/
  | allocUnlocking (st : Option ℕ)
  /-- at `mutex_lock(&st->lock)` -/
  | locking (p : ℕ)
  /-- behind it -/
  | inside (p : ℕ)
  /-- `BEGIN`, the old snapshot dropped -/
  | cleared (p : ℕ)
  /-- before `mutex_unlock(&st->lock)` -/
  | unlocking (p : ℕ) (r : FdRet)
  | returned (r : FdRet)
  deriving DecidableEq, Repr

structure FdCall where
  op : FdOp
  pc : FdPc

/-- The answer of a call, from the step on that decides it. -/
def FdCall.ret (c : FdCall) : Option FdRet :=
  match c.pc with
  | .allocUnlocking none => some (.err .enomem)
  | .unlocking _ r | .returned r => some r
  | _ => none

/-- What the calls share. A pointer to a state is its position in `states`. -/
structure FdShared where
  privateData : Option ℕ
  allocLock : Option ℕ
  states : List AcFdState
  heap : Heap
  emits : List AcEmit

/-- `kvfree` of the array of mappings -/
def FdShared.dropScan (m : FdShared) (p : ℕ) (st : AcFdState) : FdShared :=
  { m with states := m.states.set p st.clearScan, heap := m.heap.free (st.vmas.map Prod.fst) }

/-- `kvfree` of the array of modules -/
def FdShared.dropMods (m : FdShared) (p : ℕ) (st : AcFdState) : FdShared :=
  { m with states := m.states.set p st.clearMods, heap := m.heap.free (st.mods.map Prod.fst) }

/-- `ac_build_vma_snapshot` past the reset of the state, and what `SCAN_BEGIN` returns. -/
def FdShared.buildScan (m : FdShared) (p : ℕ) (st : AcFdState) (fault : Fault) (t : ScanTarget) :
    FdRet × FdShared :=
  match t.task with
  | none => (.err .esrch, m)
  | some (pid, comm) =>
    let st := { st with resolvedPid := pid }
    match t.mm with
    | none => (.err .esrch, { m with states := m.states.set p st })
    | some areas =>
      if !t.array then (.err .enomem, { m with states := m.states.set p st })
      else
        let w := vmaWalk t.pathbuf ⟨[], 0, 0, 0, false⟩ areas
        let st := { st with
          vmas := some (m.heap.next, w.entries), nVmas := w.entries.length
          rwxCount := w.rwxCount, anonExecCount := w.anonExecCount, execCount := w.execCount
          truncated := w.truncated }
        (deliver fault (.header st.header),
          { m with
            states := m.states.set p st, heap := m.heap.alloc
            emits := m.emits ++
              if t.emitEvents then w.entries.flatMap (VmaEntry.emits pid comm) else [] })

/-- `ac_build_mod_snapshot` past the reset, and what `MODS_BEGIN` returns. -/
def FdShared.buildMods (m : FdShared) (p : ℕ) (st : AcFdState) (fault : Fault) (array : Bool)
    (ring : List Module) : FdRet × FdShared :=
  if !array then (.err .enomem, m)
  else
    let mods := acBuildModSnapshot 0 ring
    let st := { st with mods := some (m.heap.next, mods), nMods := mods.length }
    (deliver fault (.count mods.length),
      { m with states := m.states.set p st, heap := m.heap.alloc })

/-- `st->vmas[g.index]`, or the module of the index, past the test of the index. -/
def readEntry {α : Type} (array : Option (ℕ × List α)) (index : ℕ) (ret : α → FdRet) : FdRet :=
  match array.bind fun a => a.2[index]? with
  | some e => ret e
  | none => .wild

/-- The part of a call behind `mutex_lock(&st->lock)`. -/
def FdShared.enter (m : FdShared) (p : ℕ) (st : AcFdState) : FdOp → FdPc × FdShared
  | .scanBegin .. => (.cleared p, m.dropScan p st)
  | .modsBegin .. => (.cleared p, m.dropMods p st)
  | .scanGet fault index =>
    if st.nVmas ≤ index then (.unlocking p (.err .einval), m)
    else (.unlocking p (deliver fault (readEntry st.vmas index .vma)), m)
  | .modsGet fault index =>
    if st.nMods ≤ index then (.unlocking p (.err .einval), m)
    else (.unlocking p (deliver fault (readEntry st.mods index .mod)), m)
  | .scanEnd => (.unlocking p .ok, m.dropScan p st)
  | .modsEnd => (.unlocking p .ok, m.dropMods p st)

/-- The rest of a `BEGIN`. -/
def FdShared.build (m : FdShared) (p : ℕ) (st : AcFdState) : FdOp → Option (FdRet × FdShared)
  | .scanBegin fault _ target => some (m.buildScan p st fault target)
  | op@(.modsBegin _ _ array ring) => some (m.buildMods p st op.fault array ring)
  | .scanGet .. | .scanEnd | .modsGet .. | .modsEnd => none

/-- The next step of call `i`. -/
def FdCall.next (m : FdShared) (i : ℕ) (c : FdCall) : Option (FdPc × FdShared) :=
  match c.pc with
  | .entered =>
    if c.op.fault = .fetch then some (.returned (.err .efault), m)
    else
      match m.privateData with
      | some p => some (.locking p, m)
      | none => some (if c.op.begins then .allocLocking else .returned c.op.absent, m)
  | .allocLocking =>
    if m.allocLock = none then some (.checking, { m with allocLock := some i }) else none
  | .checking =>
    match m.privateData with
    | some p => some (.allocUnlocking (some p), m)
    | none =>
      if c.op.kzalloc then
        some (.publishing m.states.length,
          { m with states := m.states ++ [.zero m.heap.next], heap := m.heap.alloc })
      else some (.allocUnlocking none, m)
  | .publishing p => some (.allocUnlocking (some p), { m with privateData := some p })
  | .allocUnlocking none => some (.returned (.err .enomem), { m with allocLock := none })
  | .allocUnlocking (some p) => some (.locking p, { m with allocLock := none })
  | .locking p => do
    let st ← m.states[p]?
    if st.lock = none then
      some (.inside p, { m with states := m.states.set p { st with lock := some i } })
    else none
  | .inside p => do
    let st ← m.states[p]?
    some (m.enter p st c.op)
  | .cleared p => do
    let st ← m.states[p]?
    let (r, m') ← m.build p st c.op
    some (.unlocking p r, m')
  | .unlocking p r => do
    let st ← m.states[p]?
    some (.returned r, { m with states := m.states.set p { st with lock := none } })
  | .returned _ => none

/-- An open file with the calls on it. -/
structure FdSys where
  shared : FdShared
  calls : List FdCall
  log : List (Entry FdOp FdRet)
  closed : Bool

inductive FdAct where
  | call (op : FdOp)
  | step (i : ℕ)
  /-- the last reference to the file goes: `ac_release` -/
  | release

def FdSys.init : FdSys := ⟨⟨none, none, [], .empty, []⟩, [], [], false⟩

/-- `ac_free_fd_state` of what `private_data` points to -/
def FdShared.freeState (m : FdShared) : FdShared :=
  match m.privateData.bind fun p => m.states[p]? with
  | none => m
  | some st =>
    { m with
      heap := ((m.heap.free (st.vmas.map Prod.fst)).free (st.mods.map Prod.fst)).free
        (some st.self) }

def FdSys.step (s : FdSys) : FdAct → Option FdSys
  | .call op => if s.closed then none else some { s with calls := s.calls ++ [⟨op, .entered⟩] }
  | .step i => do
    let c ← s.calls[i]?
    let (pc, m) ← c.next s.shared i
    let c' : FdCall := { c with pc }
    some ⟨m, s.calls.set i c', note s.log i c.op c.ret c'.ret, s.closed⟩
  | .release =>
    -- a call under way has the file referenced
    if s.closed || s.calls.any (fun c => !(c.pc matches .returned _)) then none
    else some { s with shared := s.shared.freeState, closed := true }

end Anticheat.Device
