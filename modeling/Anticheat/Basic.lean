import Mathlib.Algebra.Group.Int.Defs
import Mathlib.Algebra.GroupWithZero.Nat
import Mathlib.Data.Int.Notation
import Mathlib.Tactic.Common

/-!
# Shared declarations

The constants, event types and event record of `anticheat.h`. Texts are strings; a C buffer of
`n` bytes holds at most `n - 1` characters of one.
-/

namespace Anticheat

/-- `AC_MAX_COMM` -/
def acMaxComm : ℕ := 16

/-- `AC_MAX_EVENTS`: the most events one `GET_EVENTS` returns. -/
def acMaxEvents : ℕ := 64

/-- `AC_EVENT_DATA` -/
def acEventData : ℕ := 128

/-- `AC_MAX_PROTS`: the most items one `LIST_PROTECTED` returns. -/
def acMaxProts : ℕ := 64

/-- The `AC_EV_*` event types, in the order of the header. -/
inductive AcEv where
  | fork
  | exec
  | exit
  | ptrace
  | syscallHook
  | rwx
  | anonExec
  | info
  | processVm
  | syscallRedirect
  | forkDropped
  deriving DecidableEq, Repr

/-- Copy into a buffer of `size` bytes, cutting what does not fit before the final NUL. -/
def strscpy (size : ℕ) (s : String) : String :=
  String.ofList (s.toList.take (size - 1))

/-- One entry of the event ring. -/
structure AcEvent where
  ts : BitVec 64
  pid : ℤ
  comm : String
  type : AcEv
  data : String
  deriving DecidableEq, Repr

/-- The arguments of one `ac_emit` call, the format already applied. -/
structure AcEmit where
  type : AcEv
  pid : ℤ
  comm : String
  data : String
  deriving DecidableEq, Repr

/-- The priorities that the daemon logs with. -/
inductive LogPrio where
  | alert
  | crit
  | warning
  | info
  deriving DecidableEq, Repr

/-- Bytes as text, one character each. -/
def bytesText (b : List UInt8) : String := String.ofList (b.map fun c => Char.ofNat c.toNat)

/-- The number in hexadecimal, as `%lx` prints it. -/
def lx (n : UInt64) : String := String.ofList (Nat.toDigits 16 n.toNat)

end Anticheat
