import Anticheat.Basic
import Anticheat.Hash.Sha256
import Mathlib.Data.List.FinRange

/-!
# The syscall table check

`ac_capture_syscall_baseline` and `ac_check_syscalls` of the module. The table has `n` slots, the
`__NR_syscalls` of the build. What a call finds in memory is given with it: the slots it can read
and what it sees of the loaded modules.
-/

namespace Anticheat.Syscalls

open Hash

/-- The bounds of the kernel text that were found at load (0 when not found), and the handler that
stands in for them. -/
structure TextBounds where
  stext : UInt64
  textEnd : UInt64
  anchor : UInt64
  deriving DecidableEq, Repr

namespace TextBounds

variable (k : TextBounds)

/-- `ac_in_core_text` and its variant on a snapshot, which differ in how they look for the address
in the modules. -/
def inCoreText (addr : UInt64) (inModule : Bool) : Bool :=
  if k.stext = 0 || k.textEnd = 0 then false
  else if addr < k.stext || k.textEnd ≤ addr then false
  else !inModule

/-- `ac_plausible_handler` and its variant on a snapshot -/
def plausibleHandler (e : UInt64) (inModule : Bool) : Bool :=
  if e = 0 then false
  else if inModule then false
  else k.anchor - 0x4000000 < e && e < k.anchor + 0x4000000

def entryBad (e : UInt64) (inModule : Bool) : Bool :=
  if k.stext ≠ 0 && k.textEnd ≠ 0 then !k.inCoreText e inModule
  else !k.plausibleHandler e inModule

/-- `ac_entry_bad`, where `inModule` is the answer of `ac_addr_in_module` -/
def acEntryBad (e : UInt64) (inModule : Bool) : Bool := k.entryBad e inModule

/-- `ac_addr_in_ranges` -/
def acAddrInRanges (addr : UInt64) (ranges : List (UInt64 × UInt64)) : Bool :=
  ranges.any fun r => r.1 ≤ addr && addr < r.2

/-- `ac_entry_bad_snapshot`; without a snapshot the modules are walked for the entry. -/
def acEntryBadSnapshot (e : UInt64) (ranges : Option (List (UInt64 × UInt64)))
    (inModule : Bool) : Bool :=
  match ranges with
  | none => k.acEntryBad e inModule
  | some ranges => k.entryBad e (acAddrInRanges e ranges)

end TextBounds

variable {n : ℕ}

/-- What one call finds: the slots it can read, the snapshot of the module ranges if it gets one,
and what `ac_addr_in_module` would answer when slot `i` is classified the first time (for a
redirect) and the second time (for a hook). -/
structure Poll (n : ℕ) where
  read : Fin n → Option UInt64
  ranges : Option (List (UInt64 × UInt64))
  inModule : Fin n → Bool × Bool

/-- The static data of the check. -/
structure SyscallTable (n : ℕ) where
  /-- `ac_syscall_table`, 0 when the table was not found -/
  base : UInt64
  bounds : TextBounds
  baseline : Fin n → UInt64
  baselineHex : Bytes
  ready : Bool
  captured : Fin n → Bool
  hooked : Fin n → Bool
  redirect : Fin n → Bool

/-- The data as the module is loaded with it, with the table and the bounds already located. -/
def SyscallTable.init (base : UInt64) (bounds : TextBounds) : SyscallTable n :=
  ⟨base, bounds, fun _ => 0, [], false, fun _ => false, fun _ => false, fun _ => false⟩

/-- The bytes of an entry as they stand in memory. -/
def leBytes (e : UInt64) : Bytes := (List.range 8).map fun i => (e >>> UInt64.ofNat (8 * i)).toUInt8

/-- The bytes of a table. -/
def tableBytes (t : Fin n → UInt64) : Bytes := (List.finRange n).flatMap fun i => leBytes (t i)

/-- `ac_capture_syscall_baseline` -/
def acCaptureSyscallBaseline (s : SyscallTable n) (read : Fin n → Option UInt64) :
    SyscallTable n :=
  if s.base = 0 then s
  else
    let baseline := fun i => (read i).getD 0
    { s with
      baseline := baseline
      captured := fun i => s.captured i || (read i).isSome
      baselineHex := acSha256Hex (tableBytes baseline)
      ready := true }

/-- The `AC_EV_SYSCALL_HOOK` event of a slot. -/
def hookEvent (i : Fin n) (e : UInt64) : AcEmit :=
  ⟨.syscallHook, 0, "?", "syscall[" ++ toString i.val ++ "] -> 0x" ++ lx e ++
    " outside core kernel text"⟩

/-- The `AC_EV_SYSCALL_REDIRECT` event of a slot. -/
def redirectEvent (i : Fin n) (old e : UInt64) : AcEmit :=
  ⟨.syscallRedirect, 0, "?", "syscall[" ++ toString i.val ++ "] handler changed 0x" ++ lx old ++
    " -> 0x" ++ lx e ++ " (still core text)"⟩

/-- The loop state of `ac_check_syscalls`. The events stand with the slot they are about. -/
structure Check (n : ℕ) where
  st : SyscallTable n
  hash : AcSha256Ctx
  total : ℕ
  nonText : ℕ
  hooked : ℕ
  redirected : ℕ
  emits : List (Fin n × AcEmit)

namespace Check

variable (p : Poll n) (i : Fin n) (e : UInt64) (a : Check n)

/-- The value that the hash takes for a slot: what was read, or what is trusted. -/
def liveValue (s : SyscallTable n) : UInt64 :=
  match p.read i with
  | some e => e
  | none => if s.ready && s.captured i then s.baseline i else 0

/-- The entry read is compared with the baseline of its slot, or becomes it. -/
def compareBaseline : Check n :=
  if !a.st.ready then a
  else if !a.st.captured i then
    let baseline := Function.update a.st.baseline i e
    { a with st := { a.st with
        baseline := baseline
        captured := Function.update a.st.captured i true
        baselineHex := acSha256Hex (tableBytes baseline)
        redirect := Function.update a.st.redirect i false } }
  else if e ≠ a.st.baseline i then
    if !a.st.bounds.acEntryBadSnapshot e p.ranges (p.inModule i).1 then
      { a with
        redirected := a.redirected + 1
        emits := if a.st.redirect i then a.emits
          else a.emits ++ [(i, redirectEvent i (a.st.baseline i) e)]
        st := { a.st with redirect := Function.update a.st.redirect i true } }
    else { a with st := { a.st with redirect := Function.update a.st.redirect i false } }
  else { a with st := { a.st with redirect := Function.update a.st.redirect i false } }

/-- The entry read is classified by where it points. -/
def classify : Check n :=
  if e = 0 then a
  else if a.st.bounds.acEntryBadSnapshot e p.ranges (p.inModule i).2 then
    { a with
      total := a.total + 1
      nonText := a.nonText + 1
      hooked := a.hooked + 1
      emits := if a.st.hooked i then a.emits else a.emits ++ [(i, hookEvent i e)]
      st := { a.st with hooked := Function.update a.st.hooked i true } }
  else
    { a with
      total := a.total + 1
      st := { a.st with hooked := Function.update a.st.hooked i false } }

/-- The body of the loop for slot `i`. -/
def slot : Check n :=
  let a := { a with hash := acSha256Update a.hash (leBytes (liveValue p i a.st)) }
  match p.read i with
  | none => a
  | some e => classify p i e (compareBaseline p i e a)

end Check

/-- `struct ac_syscall_check` -/
structure AcSyscallCheck where
  tableAddr : UInt64
  nrSyscalls : ℕ
  total : ℕ
  nonText : ℕ
  hooked : ℕ
  ok : Bool
  baselineReady : Bool
  redirected : ℕ
  checksumMismatch : Bool
  baselineSha256 : Bytes
  currentSha256 : Bytes
  deriving DecidableEq, Repr

/-- The loop over all slots. -/
def checkLoop (s : SyscallTable n) (p : Poll n) : Check n :=
  (List.finRange n).foldl (fun a i => a.slot p i) ⟨s, acSha256Init, 0, 0, 0, 0, []⟩

/-- `ac_check_syscalls`: the data it leaves, the events it emits and its answer; `none` is
`-ENODEV`. -/
def acCheckSyscalls (s : SyscallTable n) (p : Poll n) :
    Option (SyscallTable n × List (Fin n × AcEmit) × AcSyscallCheck) :=
  if s.base = 0 then none
  else
    let a := checkLoop s p
    let baselineSha256 := if a.st.ready then a.st.baselineHex else []
    let currentSha256 := acSha256HexDigest (acSha256Final a.hash)
    let mismatch := a.st.ready && currentSha256 ≠ baselineSha256
    some (a.st, a.emits,
      { tableAddr := s.base
        nrSyscalls := n
        total := a.total
        nonText := a.nonText
        hooked := a.hooked
        ok := a.hooked = 0 && a.redirected = 0 && !mismatch
        baselineReady := s.ready
        redirected := a.redirected
        checksumMismatch := mismatch
        baselineSha256 := baselineSha256
        currentSha256 := currentSha256 })

/-- The data after a sequence of calls. -/
def polls (s : SyscallTable n) : List (Poll n) → SyscallTable n
  | [] => s
  | p :: ps =>
    match acCheckSyscalls s p with
    | none => polls s ps
    | some (s', _, _) => polls s' ps

end Anticheat.Syscalls
