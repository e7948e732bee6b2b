import Anticheat.Basic
import Mathlib.Data.Fintype.Card
import Mathlib.Data.List.FinRange

/-!
# The protected process registry

`ac_prots[]` and everything that touches it: `ac_add_prot_mm`, `ac_del_prot_mm`,
`ac_clear_protected`, the notifier callback `ac_mmu_release` and the deferred
`ac_prot_release_worker`. Each critical section of `ac_prot_lock` is one action, and so is each
call to `mmu_notifier_register` and `mmu_notifier_unregister`, during which the lock is dropped.

Of the kernel's notifiers only this much is modelled: a registered notifier is called back once,
from the exit of its address space or from inside `mmu_notifier_unregister`, and `unregister`
returns only after the callback has.
-/

namespace Anticheat

/-- `AC_PROT_MAX` -/
def acProtMax : ℕ := 64

abbrev Slot := Fin acProtMax

instance : NeZero acProtMax := ⟨by decide⟩

/-- The `.mm` field of a slot: `NULL`, `AC_PROT_RESERVED` or an address space. -/
inductive SlotMm (M : Type) where
  | null
  | reserved
  | mm (m : M)
  deriving DecidableEq, Repr

/-- `struct ac_prot_entry`, without the embedded notifier and work item. -/
structure AcProtEntry (M : Type) where
  mm : SlotMm M
  pid : ℤ
  jitAllowed : Bool
  removing : Bool
  claiming : Option M
  cancel : Bool
  releaseMm : Option M
  comm : String

/-- A zero-filled slot. -/
def AcProtEntry.empty {M : Type} : AcProtEntry M where
  mm := .null
  pid := 0
  jitAllowed := false
  removing := false
  claiming := none
  cancel := false
  releaseMm := none
  comm := ""

/-- The embedded `mmu_notifier` of a slot. -/
inductive Notifier (M : Type) where
  /-- not registered -/
  | idle
  /-- registered -/
  | hashed (m : M)
  /-- `ac_mmu_release` was called and has not taken the lock yet -/
  | releasing (m : M)
  /-- `ac_mmu_release` has cleared the slot of an exiting process and has not queued its work -/
  | cleared (m : M) (pid : ℤ) (comm : String)
  /-- the callback has returned; the reference that `register` took is still held -/
  | unhashed (m : M)
  deriving DecidableEq, Repr

/-- The embedded `release_work` of a slot. -/
inductive ReleaseWork where
  | idle
  | queued
  /-- the worker is back from `mmu_notifier_unregister` -/
  | unregistered
  deriving DecidableEq, Repr

/-- Where a call of one of the three entry points stands. -/
inductive CallPc where
  /-- in `mmu_notifier_register`, the slot claimed -/
  | registering (i : Slot)
  /-- `mmu_notifier_register` returned `ret` -/
  | registered (i : Slot) (ret : ℤ)
  /-- in `mmu_notifier_unregister` -/
  | unregistering (i : Slot)
  /-- `mmu_notifier_unregister` returned -/
  | unregistered (i : Slot)
  | returned (ret : ℤ)
  deriving DecidableEq, Repr

inductive CallKind where
  | add (pid : ℤ) (comm : String) (jitAllowed : Bool)
  | del
  /-- one iteration of `ac_clear_protected` -/
  | clear
  deriving DecidableEq, Repr

structure Call (M : Type) where
  mm : M
  kind : CallKind
  pc : CallPc

/-- The callers of `ac_add_prot_mm` and `ac_del_prot_mm` hold a reference on the mm for the
duration of the call; `ac_clear_protected` holds none. -/
def Call.pinned {M : Type} (c : Call M) : Bool := c.kind != .clear

def CallPc.isReturned : CallPc → Bool
  | .returned _ => true
  | _ => false

/-- Calls to `mmu_notifier_register` that succeeded and calls to `mmu_notifier_unregister` that
returned. -/
inductive NotifierEv (M : Type) where
  | register (i : Slot) (m : M)
  | unregister (i : Slot) (m : M)
  deriving DecidableEq, Repr

/-- The registry with its callers. `joined` and `log` are histories: whether some call returned 0
on account of the claim on a slot, and the notifier calls so far. -/
structure Registry (M : Type) where
  prots : Slot → AcProtEntry M
  count : BitVec 32
  notifier : Slot → Notifier M
  work : Slot → ReleaseWork
  calls : List (Call M)
  emits : List AcEmit
  joined : Slot → Bool
  log : List (NotifierEv M)

variable {M : Type}

def Registry.init : Registry M where
  prots := fun _ => AcProtEntry.empty
  count := 0
  notifier := fun _ => .idle
  work := fun _ => .idle
  calls := []
  emits := []
  joined := fun _ => false
  log := []

/-- `-ENOSPC` -/
def errNospc : ℤ := -28

/-! ### Lookups -/

section Lookup

variable [DecidableEq M] (prots : Slot → AcProtEntry M)

/-- `ac_is_protected_mm` -/
def acIsProtectedMm (m : Option M) : Bool :=
  match m with
  | none => false
  | some m => (List.finRange acProtMax).any fun i => (prots i).mm == .mm m

/-- `ac_prot_jit_allowed_mm`: every entry for the mm allows it, and there is one. -/
def acProtJitAllowedMm (m : M) : Bool :=
  let matching := (List.finRange acProtMax).filter fun i => (prots i).mm == .mm m
  !matching.isEmpty && matching.all fun i => (prots i).jitAllowed

/-- One item of `struct ac_prot_list`. -/
structure AcProtItem where
  pid : ℤ
  jitAllowed : Bool
  comm : String
  deriving DecidableEq, Repr

/-- What the scan at the start of `ac_add_prot_mm` finds. -/
inductive AddScan where
  /-- an entry for the mm that is not being removed -/
  | published (i : Slot)
  /-- a claim for the mm that is not cancelled -/
  | claimed (i : Slot)
  /-- neither; the first free slot, if any -/
  | free (slot : Option Slot)
  deriving DecidableEq, Repr

/-- The scan loop of `ac_add_prot_mm`; `slot` is the first free slot seen so far. -/
def addScan (m : M) : List Slot → Option Slot → AddScan
  | [], slot => .free slot
  | i :: is, slot =>
    if (prots i).mm = .mm m ∧ !(prots i).removing then .published i
    else if (prots i).mm = .reserved ∧ (prots i).claiming = some m ∧ !(prots i).cancel then
      .claimed i
    else if (prots i).mm = .null ∧ !(prots i).removing ∧ slot = none then
      addScan m is (some i)
    else addScan m is slot

/-- The scan loop of `ac_del_prot_mm`. -/
def delScan (m : M) : Option Slot :=
  (List.finRange acProtMax).find? fun i => (prots i).mm == .mm m && !(prots i).removing

/-- Flag every claim for the mm, as `ac_del_prot_mm` does when no entry is published. -/
def cancelClaims (m : M) : Slot → AcProtEntry M := fun j =>
  if (prots j).mm = .reserved ∧ (prots j).claiming = some m then
    { prots j with cancel := true }
  else prots j

end Lookup

/-! ### The critical sections -/

section Sections

variable [DecidableEq M]

/-- Replace a slot. -/
@[simps] def Registry.setSlot (s : Registry M) (i : Slot) (e : AcProtEntry M) : Registry M :=
  { s with prots := Function.update s.prots i e }

@[simps] def Registry.setNotifier (s : Registry M) (i : Slot) (n : Notifier M) : Registry M :=
  { s with notifier := Function.update s.notifier i n }

@[simps] def Registry.setWork (s : Registry M) (i : Slot) (w : ReleaseWork) : Registry M :=
  { s with work := Function.update s.work i w }

/-- A new call, numbered by its position. -/
@[simps] def Registry.newCall (s : Registry M) (m : M) (kind : CallKind) (pc : CallPc) :
    Registry M :=
  { s with calls := s.calls ++ [⟨m, kind, pc⟩] }

@[simps] def Registry.setPc (s : Registry M) (c : ℕ) (call : Call M) (pc : CallPc) :
    Registry M :=
  { s with calls := s.calls.set c { call with pc := pc } }

/-- First critical section of `ac_add_prot_mm`. -/
def Registry.addEnter (s : Registry M) (m : M) (pid : ℤ) (comm : String) (jit : Bool) :
    Registry M :=
  let kind := CallKind.add pid comm jit
  match addScan s.prots m (List.finRange acProtMax) none with
  | .published i =>
    (s.setSlot i { s.prots i with jitAllowed := jit }).newCall m kind (.returned 0)
  | .claimed i =>
    ({ s with joined := Function.update s.joined i true }).newCall m kind (.returned 0)
  | .free none => s.newCall m kind (.returned errNospc)
  | .free (some i) =>
    ({ s.setSlot i { s.prots i with mm := .reserved, claiming := some m, cancel := false } with
      joined := Function.update s.joined i false }).newCall m kind (.registering i)

/-- Second critical section of `ac_add_prot_mm`, after `mmu_notifier_register` returned `ret`. -/
def Registry.addSettle (s : Registry M) (c : ℕ) (call : Call M) (i : Slot) (ret : ℤ) (pid : ℤ)
    (comm : String) (jit : Bool) : Registry M :=
  let e := { s.prots i with claiming := none }
  if ret ≠ 0 then
    (s.setSlot i { e with mm := .null, cancel := false }).setPc c call (.returned ret)
  else if e.cancel then
    -- an `ac_del_prot_mm` came in between: undo the registration, never publish it
    (s.setSlot i { e with cancel := false, mm := .null, removing := true }).setPc c call
      (.unregistering i)
  else
    ({ s.setSlot i { e with
        mm := .mm call.mm, pid := pid, jitAllowed := jit, comm := strscpy acMaxComm comm } with
      count := s.count + 1 }).setPc c call (.returned 0)

/-- First critical section of `ac_del_prot_mm`. -/
def Registry.delEnter (s : Registry M) (m : M) : Registry M :=
  match delScan s.prots m with
  | some i => (s.setSlot i { s.prots i with removing := true }).newCall m .del (.unregistering i)
  | none => ({ s with prots := cancelClaims s.prots m }).newCall m .del (.returned 0)

/-- First critical section of one iteration of `ac_clear_protected`. -/
def Registry.clearEnter (s : Registry M) (i : Slot) : Registry M :=
  match (s.prots i).mm with
  | .mm m =>
    if (s.prots i).removing then s
    else (s.setSlot i { s.prots i with removing := true }).newCall m .clear (.unregistering i)
  | _ => s

/-- Clear a matching slot in `ac_mmu_release`; `n` says what the callback still has to do. -/
@[simps] def Registry.clearSlot (s : Registry M) (i : Slot) (n : Notifier M) : Registry M :=
  { (s.setSlot i { s.prots i with mm := .null, removing := true }).setNotifier i n with
    count := s.count - 1 }

/-- The critical section of `ac_mmu_release`. An entry that nobody is removing belongs to a
process that exits, and keeps its slot pinned by `removing`. -/
def Registry.mmuRelease (s : Registry M) (i : Slot) (m : M) : Registry M :=
  let e := s.prots i
  if e.mm = .mm m then
    s.clearSlot i
      (if e.removing then .unhashed m else .cleared m e.pid (strscpy acMaxComm e.comm))
  else s.setNotifier i (.unhashed m)

/-- The rest of `ac_mmu_release`, reached for a process that exits. -/
@[simps] def Registry.queueRelease (s : Registry M) (i : Slot) (m : M) (pid : ℤ) (comm : String) :
    Registry M :=
  { ((s.setSlot i { s.prots i with releaseMm := some m }).setWork i .queued).setNotifier i
      (.unhashed m) with
    emits := s.emits ++ [⟨.exit, pid, comm, "protected process exited"⟩] }

/-- `mmu_notifier_register` succeeds. -/
@[simps] def Registry.register (s : Registry M) (i : Slot) (m : M) : Registry M :=
  { s.setNotifier i (.hashed m) with log := s.log ++ [.register i m] }

/-- `mmu_notifier_unregister` returns. -/
@[simps] def Registry.unregister (s : Registry M) (i : Slot) (m : M) : Registry M :=
  { s.setNotifier i .idle with log := s.log ++ [.unregister i m] }

/-- The last critical section of `ac_prot_release_worker`. -/
@[simps] def Registry.releaseFinish (s : Registry M) (i : Slot) : Registry M :=
  { s.setSlot i { s.prots i with releaseMm := none, removing := false } with
    work := Function.update s.work i .idle }

/-- An mm with a pinning call in flight does not exit. -/
def Registry.pinnedBy (s : Registry M) (m : M) : Bool :=
  s.calls.any fun c => c.mm == m && c.pinned && !c.pc.isReturned

/-- The last user of an mm is gone: the kernel starts the callback of each of its notifiers. -/
@[simps] def Registry.exitMm (s : Registry M) (m : M) : Registry M :=
  { s with notifier := fun i => if s.notifier i = .hashed m then .releasing m else s.notifier i }

/-- Whether `mmu_notifier_unregister` has no callback to wait for. -/
def Notifier.quiet : Notifier M → Bool
  | .idle => true
  | .unhashed _ => true
  | _ => false

end Sections

/-! ### The transition system -/

inductive RegAct (M : Type) where
  /-- `ac_add_prot_mm` up to the end of its first critical section -/
  | addEnter (m : M) (pid : ℤ) (comm : String) (jit : Bool)
  /-- `mmu_notifier_register` returns `ret` to call `c` -/
  | register (c : ℕ) (ret : ℤ)
  | addSettle (c : ℕ)
  | delEnter (m : M)
  | clearEnter (i : Slot)
  /-- `mmu_notifier_unregister` of call `c` calls the callback back, if nobody has yet -/
  | unregBegin (c : ℕ)
  | unregReturn (c : ℕ)
  /-- the critical section after `mmu_notifier_unregister` -/
  | finish (c : ℕ)
  | exit (m : M)
  | release (i : Slot)
  | queueRelease (i : Slot)
  | workUnregister (i : Slot)
  | workFinish (i : Slot)
  deriving DecidableEq, Repr

def Registry.step [DecidableEq M] (s : Registry M) : RegAct M → Option (Registry M)
  | .addEnter m pid comm jit => some (s.addEnter m pid comm jit)
  | .register c ret =>
    match s.calls[c]? with
    | some call =>
      match call.pc with
      | .registering i =>
        if ret = 0 then some ((s.register i call.mm).setPc c call (.registered i ret))
        else some (s.setPc c call (.registered i ret))
      | _ => none
    | none => none
  | .addSettle c =>
    match s.calls[c]? with
    | some call =>
      match call.pc, call.kind with
      | .registered i ret, .add pid comm jit => some (s.addSettle c call i ret pid comm jit)
      | _, _ => none
    | none => none
  | .delEnter m => some (s.delEnter m)
  | .clearEnter i => some (s.clearEnter i)
  | .unregBegin c =>
    match s.calls[c]? with
    | some call =>
      match call.pc with
      | .unregistering i =>
        match s.notifier i with
        | .hashed _ => some (s.setNotifier i (.releasing call.mm))
        | _ => none
      | _ => none
    | none => none
  | .unregReturn c =>
    match s.calls[c]? with
    | some call =>
      match call.pc with
      | .unregistering i =>
        if (s.notifier i).quiet then
          some ((s.unregister i call.mm).setPc c call (.unregistered i))
        else none
      | _ => none
    | none => none
  | .finish c =>
    match s.calls[c]? with
    | some call =>
      match call.pc with
      | .unregistered i =>
        some ((s.setSlot i { s.prots i with removing := false }).setPc c call (.returned 0))
      | _ => none
    | none => none
  | .exit m => if s.pinnedBy m then none else some (s.exitMm m)
  | .release i =>
    match s.notifier i with
    | .releasing m => some (s.mmuRelease i m)
    | _ => none
  | .queueRelease i =>
    match s.notifier i with
    | .cleared m pid comm => some (s.queueRelease i m pid comm)
    | _ => none
  | .workUnregister i =>
    match s.work i, (s.prots i).releaseMm with
    | .queued, some m =>
      if (s.notifier i).quiet then some ((s.unregister i m).setWork i .unregistered) else none
    | _, _ => none
  | .workFinish i =>
    match s.work i with
    | .unregistered => some (s.releaseFinish i)
    | _ => none

end Anticheat
