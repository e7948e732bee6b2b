import Anticheat.Lib.CText

/-!
# HTTP messages

A message is a start line, fields and an empty line, followed by the body. The reader takes lines up
to a line feed, with or without a carriage return before it, and splits a field at its first colon.
What is written with line breaks of its own in no part is read back part by part: a value that holds
none cannot become a field or end the header.
-/

namespace HttpMessage

open CText

/-- A message as it is read: what comes after the header is not cut to a length. -/
structure Message where
  start : Bytes
  fields : List (Bytes × Bytes)
  rest : Bytes
  deriving DecidableEq, Repr

/-- The first line, and what comes after it. -/
def readLine (l : Bytes) : Option (Bytes × Bytes) :=
  (strchr 10 l).map fun p => (if p.1.getLast? = some 13 then p.1.dropLast else p.1, p.2)

/-- A blank or a tab. -/
def isBlank (c : UInt8) : Bool := c = 32 || c = 9

/-- The name and the value of a field. -/
def readField (l : Bytes) : Option (Bytes × Bytes) :=
  (strchr 58 l).map fun p => (p.1, p.2.dropWhile isBlank)

/-- The fields up to the empty line, at most so many. -/
def readFields : ℕ → Bytes → Option (List (Bytes × Bytes) × Bytes)
  | 0, _ => none
  | n + 1, l =>
    match readLine l with
    | none => none
    | some ([], rest) => some ([], rest)
    | some (x, rest) => do
      let f ← readField x
      let (fs, rest) ← readFields n rest
      some (f :: fs, rest)

def read (l : Bytes) : Option Message := do
  let (start, l) ← readLine l
  let (fields, rest) ← readFields (l.length + 1) l
  some ⟨start, fields, rest⟩

/-! ### Writing -/

def crlf : Bytes := [13, 10]

def writeField (f : Bytes × Bytes) : Bytes := f.1 ++ [58, 32] ++ f.2 ++ crlf

def write (start : Bytes) (fields : List (Bytes × Bytes)) (body : Bytes) : Bytes :=
  start ++ crlf ++ fields.flatMap writeField ++ crlf ++ body

/-- There is no line break in it. -/
def OneLine (l : Bytes) : Prop := 13 ∉ l ∧ 10 ∉ l

instance decidableOneLine (l : Bytes) : Decidable (OneLine l) :=
  inferInstanceAs (Decidable (_ ∧ _))

lemma OneLine.append {a b : Bytes} (ha : OneLine a) (hb : OneLine b) : OneLine (a ++ b) :=
  ⟨by simp [ha.1, hb.1], by simp [ha.2, hb.2]⟩

lemma readLine_crlf {x : Bytes} (hx : OneLine x) (l : Bytes) :
    readLine (x ++ crlf ++ l) = some (x, l) := by
  have hsplit : strchr 10 (x ++ crlf ++ l) = some (x ++ [13], l) := by
    rw [strchr_eq_some]
    exact ⟨by simp [crlf], by simp [hx.2]⟩
  rw [readLine, hsplit]
  simp

lemma readField_write {name value : Bytes} (hname : 58 ∉ name) :
    readField (name ++ [58, 32] ++ value) = some (name, value.dropWhile isBlank) := by
  have hsplit : strchr 58 (name ++ [58, 32] ++ value) = some (name, 32 :: value) := by
    rw [strchr_eq_some]
    exact ⟨by simp, hname⟩
  rw [readField, hsplit]
  rfl

/-- A field that can be written. -/
structure Writable (f : Bytes × Bytes) : Prop where
  name : OneLine f.1
  colon : 58 ∉ f.1
  value : OneLine f.2

lemma writable_mk {name value : Bytes} (hname : OneLine name) (hcolon : 58 ∉ name)
    (hvalue : OneLine value) : Writable (name, value) :=
  ⟨hname, hcolon, hvalue⟩

lemma readFields_write {fields : List (Bytes × Bytes)} (h : ∀ f ∈ fields, Writable f) (body : Bytes)
    {n : ℕ} (hn : fields.length < n) :
    readFields n (fields.flatMap writeField ++ crlf ++ body) =
      some (fields.map fun f => (f.1, f.2.dropWhile isBlank), body) := by
  induction fields generalizing n with
  | nil =>
    obtain ⟨n, rfl⟩ := Nat.exists_eq_succ_of_ne_zero (Nat.ne_of_gt hn)
    have hline : readLine (crlf ++ body) = some ([], body) :=
      readLine_crlf (x := []) (by decide) body
    simp [readFields, hline]
  | cons f fields ih =>
    obtain ⟨n, rfl⟩ := Nat.exists_eq_succ_of_ne_zero (Nat.ne_of_gt (Nat.zero_lt_of_lt hn))
    obtain ⟨hf, hfields⟩ := List.forall_mem_cons.mp h
    have hsep : OneLine [58, 32] := by decide
    have hone : OneLine (f.1 ++ [58, 32] ++ f.2) := (hf.name.append hsep).append hf.value
    have htext : (f :: fields).flatMap writeField ++ crlf ++ body =
        (f.1 ++ [58, 32] ++ f.2) ++ crlf ++ (fields.flatMap writeField ++ crlf ++ body) := by
      simp [writeField]
    have hne : f.1 ++ [58, 32] ++ f.2 ≠ [] := by simp
    rw [htext, readFields, readLine_crlf hone]
    split
    · rename_i heq
      cases heq
    · rename_i rest heq
      exact absurd (Prod.mk.inj (Option.some.inj heq)).1 hne
    · rename_i x rest _ heq
      obtain ⟨rfl, rfl⟩ := Prod.mk.inj (Option.some.inj heq)
      rw [readField_write hf.colon, ih hfields (Nat.lt_of_succ_lt_succ hn)]
      rfl

/-- What is written is read back. -/
theorem read_write {start : Bytes} {fields : List (Bytes × Bytes)} (hstart : OneLine start)
    (h : ∀ f ∈ fields, Writable f) (body : Bytes) :
    read (write start fields body) =
      some ⟨start, fields.map fun f => (f.1, f.2.dropWhile isBlank), body⟩ := by
  have htext : write start fields body =
      start ++ crlf ++ (fields.flatMap writeField ++ crlf ++ body) := by simp [write]
  have hcount : fields.length ≤ (fields.flatMap writeField).length := by
    clear h htext
    induction fields with
    | nil => simp
    | cons f fields ih =>
      rw [List.flatMap_cons, List.length_append, List.length_cons]
      have hpos : 0 < (writeField f).length := by
        simp only [writeField, List.length_append, List.length_cons]
        omega
      omega
  rw [read, htext, readLine_crlf hstart]
  simp only [bind, Option.bind]
  rw [readFields_write h body (by simp only [List.length_append]; omega)]

/-! ### Looking up fields -/

def toLower (c : UInt8) : UInt8 := if 65 ≤ c && c ≤ 90 then c + 32 else c

/-- The values of all fields of that name, which is given in small letters. -/
def getAll (name : Bytes) (fields : List (Bytes × Bytes)) : List Bytes :=
  (fields.filter fun f => f.1.map toLower = name).map Prod.snd

/-- The value of the first one. -/
def get (name : Bytes) (fields : List (Bytes × Bytes)) : Option Bytes := (getAll name fields).head?

end HttpMessage
