import Mathlib.Algebra.Group.Int.Defs
import Mathlib.Algebra.GroupWithZero.Nat
import Mathlib.Data.Int.Basic
import Mathlib.Tactic.Common

/-!
# JSON values

Strings are lists of code points, surrogates included. A number is an integer of any size or a
binary64 value, the latter given by the literal it is rounded from.
-/

namespace Json

/-- Text as a list of code points. -/
abbrev Text := List ℕ

/-- The numbers a JSON reader yields, with the three names beyond the grammar that common readers
accept. -/
inductive Number
  | int (z : ℤ)
  /-- The literal `± mant * 10 ^ exp`, rounded to binary64. -/
  | dec (neg : Bool) (mant : ℕ) (exp : ℤ)
  | nan
  | inf (neg : Bool)
  deriving DecidableEq, Repr

namespace Number

/-- The least magnitude that is rounded to infinity, half a unit above the largest binary64. -/
def overflow : ℕ := 2 ^ 1024 - 2 ^ 970

/-- Whether the number is rounded to a finite value. -/
def isFinite : Number → Bool
  | int _ => true
  | dec _ mant exp =>
    if 0 ≤ exp then mant * 10 ^ exp.toNat < overflow else mant < overflow * 10 ^ (-exp).toNat
  | nan => false
  | inf _ => false

end Number

end Json
