import Anticheat.Lib.CText
import Anticheat.Lib.Utf8

/-!
# The body of a report

`ac_json_escape` copies a string into a buffer of fixed size, with what JSON asks for escaped, and
stops when the next byte might not fit. `ac_report` puts three such strings and the time into the
body of its request.
-/

namespace Anticheat.Report

open CText

/-- What is written for a byte. -/
def escapeByte (c : UInt8) : Bytes :=
  if c = 34 then [92, 34]
  else if c = 92 then [92, 92]
  else if c = 10 then [92, 110]
  else if c = 13 then [92, 114]
  else if c = 9 then [92, 116]
  else if c < 0x20 then [92, 117, 48, 48, hexDigit (c.toNat / 16), hexDigit (c.toNat % 16)]
  else [c]

/-- The loop of `ac_json_escape`: what is in the buffer, and where the input stands. -/
def escapeLoop (outsz : ℕ) (out : Bytes) : Bytes → Bytes × Bytes
  | [] => (out, [])
  | c :: l =>
    if c ≠ 0 ∧ out.length + 7 < outsz then escapeLoop outsz (out ++ escapeByte c) l
    else (out, c :: l)

/-- `ac_json_escape`: the string in the buffer. -/
def acJsonEscape (input : Bytes) (outsz : ℕ) : Bytes :=
  if outsz = 0 then [] else (escapeLoop outsz [] input).1

/-- The bytes of the input that `ac_json_escape` goes over. -/
def consumed (input : Bytes) (outsz : ℕ) : Bytes :=
  input.take (input.length - (escapeLoop outsz [] input).2.length)

/-- The types of events that `logmsg` reports. -/
inductive EventType
  | alert
  | critical
  deriving DecidableEq, Repr

/-- The bytes of a string of the program. -/
def bytes (s : String) : Bytes := s.toList.map fun c => c.val.toUInt8

def EventType.name : EventType → Bytes
  | alert => bytes "ALERT"
  | critical => bytes "CRITICAL"

/-- The body that `ac_report` makes, if it fits its buffer. -/
def acReportBody (clientId eventType detail : Bytes) (time : Int64) : Option Bytes :=
  let body := bytes "\x7b\"client_id\":\"" ++ acJsonEscape clientId 256 ++
    bytes "\",\"event_type\":\"" ++ acJsonEscape eventType 64 ++
    bytes "\",\"detail\":\"" ++ acJsonEscape detail 600 ++
    bytes "\",\"ts\":" ++ printDec time.toInt ++ bytes "\x7d"
  if body.length < 1024 then some body else none

/-! ### The escaped string -/

section

variable {outsz : ℕ} {out l : Bytes} {c : UInt8}

lemma length_escapeByte_le (c : UInt8) : (escapeByte c).length ≤ 6 := by
  unfold escapeByte
  split_ifs <;> simp

lemma escapeByte_ne_nil (c : UInt8) : escapeByte c ≠ [] := by
  unfold escapeByte
  split_ifs <;> simp

/-- The loop writes the escapes of the bytes it goes over; it stops at the end of the string or when
seven bytes might not fit. -/
lemma escapeLoop_eq : ∃ p rest, l = p ++ rest ∧
    escapeLoop outsz out l = (out ++ p.flatMap escapeByte, rest) ∧ 0 ∉ p ∧
    (rest = [] ∨ rest.head? = some 0 ∨ outsz ≤ out.length + (p.flatMap escapeByte).length + 7) := by
  induction l generalizing out with
  | nil => exact ⟨[], [], by simp [escapeLoop]⟩
  | cons c l ih =>
    by_cases h : c ≠ 0 ∧ out.length + 7 < outsz
    · obtain ⟨p, rest, rfl, heq, hp, hstop⟩ := @ih (out ++ escapeByte c)
      refine ⟨c :: p, rest, rfl, ?_, by simp [hp, h.1.symm], ?_⟩
      · rw [escapeLoop, if_pos h, heq]
        simp
      · simpa [Nat.add_assoc] using hstop
    · refine ⟨[], c :: l, rfl, by simp [escapeLoop, h], by simp, ?_⟩
      rw [not_and_or, not_not] at h
      rcases h with rfl | h
      · exact .inr (.inl rfl)
      · exact .inr (.inr (by simpa using h))

/-- The bytes that are consumed are the longest start of the string whose escapes leave room before
each of its bytes. -/
lemma consumed_spec (l : Bytes) (outsz : ℕ) : ∃ rest, l = consumed l outsz ++ rest ∧
    (escapeLoop outsz [] l).1 = (consumed l outsz).flatMap escapeByte ∧ 0 ∉ consumed l outsz ∧
    (rest = [] ∨ rest.head? = some 0 ∨
      outsz ≤ ((consumed l outsz).flatMap escapeByte).length + 7) := by
  obtain ⟨p, rest, hl, heq, hp, hstop⟩ := @escapeLoop_eq outsz [] l
  have hconsumed : consumed l outsz = p := by
    rw [consumed, heq, hl]
    simp
  rw [hconsumed, heq]
  exact ⟨rest, hl, by simp, hp, by simpa using hstop⟩

lemma acJsonEscape_eq (l : Bytes) (h : outsz ≠ 0) :
    acJsonEscape l outsz = (consumed l outsz).flatMap escapeByte := by
  obtain ⟨-, -, heq, -⟩ := consumed_spec l outsz
  rw [acJsonEscape, if_neg h, heq]

/-- The buffer is not overrun, and there is room for the final NUL. -/
lemma length_escapeLoop (h : out.length < outsz) : (escapeLoop outsz out l).1.length < outsz := by
  induction l generalizing out with
  | nil => exact h
  | cons c l ih =>
    rw [escapeLoop]
    split_ifs with hroom
    · refine ih ?_
      have := length_escapeByte_le c
      rw [List.length_append]
      omega
    · exact h

lemma length_acJsonEscape (l : Bytes) (h : 0 < outsz) : (acJsonEscape l outsz).length < outsz := by
  rw [acJsonEscape, if_neg (Nat.ne_of_gt h)]
  exact length_escapeLoop h

/-- No more bytes are consumed than are written. -/
lemma length_consumed (l : Bytes) (h : 0 < outsz) : (consumed l outsz).length < outsz := by
  have hle : ∀ p : Bytes, p.length ≤ (p.flatMap escapeByte).length := by
    intro p
    induction p with
    | nil => exact Nat.le_refl _
    | cons c p ih =>
      have := List.length_pos_of_ne_nil (escapeByte_ne_nil c)
      rw [List.flatMap_cons, List.length_append, List.length_cons]
      omega
  refine Nat.lt_of_le_of_lt (hle _) ?_
  rw [← acJsonEscape_eq l (Nat.ne_of_gt h)]
  exact length_acJsonEscape l h

/-- Bytes that stand for themselves. -/
def Plain (c : UInt8) : Prop := 0x20 ≤ c ∧ c ≠ 34 ∧ c ≠ 92

lemma escapeByte_plain (h : Plain c) : escapeByte c = [c] := by
  have hne : ∀ k : UInt8, k < 0x20 → c ≠ k := by
    rintro k hk rfl
    exact absurd (UInt8.lt_of_le_of_lt h.1 hk) (UInt8.lt_irrefl _)
  simp [escapeByte, h.2.1, h.2.2, hne 10 (by decide), hne 13 (by decide), hne 9 (by decide),
    UInt8.not_lt.mpr h.1]

lemma escapeLoop_plain (hl : ∀ c ∈ l, Plain c) (h : out.length + l.length + 7 ≤ outsz) :
    escapeLoop outsz out l = (out ++ l, []) := by
  induction l generalizing out with
  | nil => simp [escapeLoop]
  | cons c l ih =>
    obtain ⟨hc, hl⟩ := List.forall_mem_cons.mp hl
    have h0 : c ≠ 0 := by
      rintro rfl
      exact absurd hc.1 (by decide)
    rw [List.length_cons] at h
    rw [escapeLoop, if_pos ⟨h0, by omega⟩, escapeByte_plain hc, ih hl (by simp; omega)]
    simp

/-- A string of such bytes that fits is copied. -/
lemma acJsonEscape_plain (hl : ∀ c ∈ l, Plain c) (h : l.length + 7 ≤ outsz) :
    acJsonEscape l outsz = l := by
  rw [acJsonEscape, if_neg (by omega), escapeLoop_plain hl (by simpa using h)]
  rfl

end

/-! ### The text of the escaped string -/

/-- What the escape of a code point looks like as text. -/
def escapeChar (c : ℕ) : List ℕ :=
  if c < 0x80 then (escapeByte (UInt8.ofNat c)).map UInt8.toNat else [c]

lemma escapeByte_ascii {b : UInt8} (hb : b.toNat < 0x80) : ∀ a ∈ escapeByte b, a.toNat < 0x80 := by
  have hhex : ∀ d < 16, (hexDigit d).toNat < 0x80 := by decide
  have hhi := hhex (b.toNat / 16) (by omega)
  have hlo := hhex (b.toNat % 16) (by omega)
  unfold escapeByte
  split_ifs <;> simp [hb, hhi, hlo]

lemma escapeChar_ascii {b : UInt8} (hb : b.toNat < 0x80) :
    escapeChar b.toNat = (escapeByte b).map UInt8.toNat := by
  simp [escapeChar, hb]

lemma escapeByte_wide {b : UInt8} (hb : 0x80 ≤ b.toNat) : escapeByte b = [b] := by
  have hle : (0x80 : UInt8) ≤ b := UInt8.le_iff_toNat_le.mpr hb
  refine escapeByte_plain ⟨UInt8.le_trans (by decide) hle, ?_, ?_⟩
  · rintro rfl
    exact absurd hle (by decide)
  · rintro rfl
    exact absurd hle (by decide)

lemma escapeChar_wide {c : ℕ} (hc : 0x80 ≤ c) : escapeChar c = [c] := by
  simp [escapeChar, Nat.not_lt.mpr hc]

lemma flatMap_escapeChar_wide {cs : List ℕ} (h : ∀ c ∈ cs, 0x80 ≤ c) :
    cs.flatMap escapeChar = cs := by
  induction cs with
  | nil => rfl
  | cons c cs ih =>
    obtain ⟨hc, hcs⟩ := List.forall_mem_cons.mp h
    rw [List.flatMap_cons, escapeChar_wide hc, ih hcs]
    rfl

lemma flatMap_escapeChar_finish (q : Option Utf8.Pending) :
    (Utf8.finish q).flatMap escapeChar = Utf8.finish q := by
  cases q <;> rfl

/-- Escaping the bytes and escaping the text are the same: the escapes are ASCII, and the bytes of
wider characters are not touched, whatever comes before and after them. -/
lemma decodeFrom_flatMap (q : Option Utf8.Pending) (l : Bytes) :
    Utf8.decodeFrom q (l.flatMap escapeByte) = (Utf8.decodeFrom q l).flatMap escapeChar := by
  induction l generalizing q with
  | nil => exact (flatMap_escapeChar_finish q).symm
  | cons b l ih =>
    by_cases hb : b.toNat < 0x80
    · have hascii := escapeByte_ascii hb
      rw [List.flatMap_cons, Utf8.decodeFrom_ascii hb, List.flatMap_append, List.flatMap_cons,
        flatMap_escapeChar_finish, escapeChar_ascii hb, Utf8.decode, ← ih none]
      -- the first byte of the escape ends what is pending
      cases hesc : escapeByte b with
      | nil => exact absurd hesc (escapeByte_ne_nil b)
      | cons a as =>
        rw [hesc] at hascii
        obtain ⟨ha, has⟩ := List.forall_mem_cons.mp hascii
        rw [List.cons_append, Utf8.decodeFrom_ascii ha, Utf8.decode_ascii_append has]
        simp [Utf8.decode]
    · have hb := Nat.le_of_not_lt hb
      rw [List.flatMap_cons, escapeByte_wide hb, List.singleton_append, Utf8.decodeFrom,
        Utf8.decodeFrom, List.flatMap_append, ih,
        flatMap_escapeChar_wide fun c hc => (Utf8.wide_of_mem_step hb hc).1]

end Anticheat.Report
