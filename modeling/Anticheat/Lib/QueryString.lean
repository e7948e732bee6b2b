import Anticheat.Lib.JsonReader
import Anticheat.Lib.Utf8

/-!
# Query strings

How a common library takes the query of a URL apart: the fields between `&` that are not empty, each
with a name up to its first `=`, `+` for a space, and `%` escapes in the runs of ASCII characters,
which stand for bytes of UTF-8.
-/

namespace QueryString

open Json (Text)

/-- The bytes of a run of ASCII characters with its `%` escapes; one without two digits stays. -/
def unquoteBytes : Text → List UInt8
  | [] => []
  | 37 :: a :: b :: t =>
    match Json.hexVal a, Json.hexVal b with
    | some a, some b => UInt8.ofNat (a * 16 + b) :: unquoteBytes t
    | _, _ => 37 :: unquoteBytes (a :: b :: t)
  | c :: t => UInt8.ofNat c :: unquoteBytes t

/-- The text with its escapes replaced, after the ASCII characters `run`. -/
def unquoteFrom (run : Text) : Text → Text
  | [] => Utf8.decode (unquoteBytes run)
  | c :: t =>
    if c < 128 then unquoteFrom (run ++ [c]) t
    else Utf8.decode (unquoteBytes run) ++ c :: unquoteFrom [] t

def unquote (t : Text) : Text := unquoteFrom [] t

/-- The name or the value of a field. -/
def fieldText (t : Text) : Text := unquote (t.map fun c => if c = 43 then 32 else c)

/-- The fields of a query, with blank values kept. -/
def parseQs (query : Text) : List (Text × Text) :=
  ((query.splitOn 38).filter (· ≠ [])).map fun f =>
    (fieldText (f.takeWhile (· ≠ 61)), fieldText (f.dropWhile (· ≠ 61)).tail)

/-- The values of the fields of one name. -/
def values (query name : Text) : List Text :=
  ((parseQs query).filter (·.1 = name)).map (·.2)

/-! ### Decimal integers -/

/-- What the Unicode database says about digits: which characters count as digits, and the value of
those that can stand in an integer. On ASCII both are what one expects. -/
structure DigitTable where
  isDigit : ℕ → Bool
  decimal : ℕ → Option ℕ
  ascii_isDigit : ∀ c < 128, isDigit c = Json.isDigit c
  ascii_decimal : ∀ c < 128, decimal c = if Json.isDigit c then some (c - 48) else none

/-- The table that knows ASCII only. -/
def DigitTable.ascii : DigitTable where
  isDigit := Json.isDigit
  decimal := fun c => if Json.isDigit c then some (c - 48) else none
  ascii_isDigit := fun _ _ => rfl
  ascii_decimal := fun _ _ => rfl

/-- The most digits that an integer may be read from. -/
def maxStrDigits : ℕ := 4300

variable (U : DigitTable)

/-- Whether a text is digits only, and has one. -/
def isDigits (t : Text) : Bool := t ≠ [] && t.all U.isDigit

/-- The integer that digits stand for; a character may count as a digit and have no decimal
value. -/
def toInt (t : Text) : Option ℕ :=
  if maxStrDigits < t.length then none
  else (t.mapM U.decimal).map fun ds => ds.foldl (fun n d => n * 10 + d) 0

end QueryString
