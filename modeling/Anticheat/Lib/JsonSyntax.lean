import Anticheat.Lib.CText

/-!
# The syntax of JSON

The grammar of JSON over bytes. A value keeps its strings, numbers and names as they are written;
what is left open is the whitespace between them, so that one value has many texts.
-/

namespace JsonSyntax

open CText (Bytes hexVal isDigit)

/-! ### Strings -/

/-- A byte that stands for itself in a string. -/
def IsPlain (b : UInt8) : Prop := 32 ≤ b ∧ b ≠ 34 ∧ b ≠ 92

instance decidableIsPlain (b : UInt8) : Decidable (IsPlain b) :=
  inferInstanceAs (Decidable (32 ≤ b ∧ b ≠ 34 ∧ b ≠ 92))

/-- What a letter after a backslash stands for. -/
def escaped : UInt8 → Option UInt8
  | 34 => some 34
  | 92 => some 92
  | 47 => some 47
  | 98 => some 8
  | 102 => some 12
  | 110 => some 10
  | 114 => some 13
  | 116 => some 9
  | _ => none

/-- What four hexadecimal digits stand for. -/
def hex4 (a b c d : UInt8) : Option ℕ := do
  let a ← hexVal a
  let b ← hexVal b
  let c ← hexVal c
  let d ← hexVal d
  return ((a * 16 + b) * 16 + c) * 16 + d

lemma isPlain_of_hexVal {a : UInt8} (h : (hexVal a).isSome) : IsPlain a := by
  have hrange : 48 ≤ a.toNat ∧ a.toNat ≤ 102 ∧ a.toNat ≠ 92 := by
    rw [hexVal] at h
    simp only [UInt8.le_iff_toNat_le, UInt8.reduceToNat] at h
    split_ifs at h
    · omega
    · omega
    · omega
    · cases h
  simp only [IsPlain, UInt8.le_iff_toNat_le, ne_eq, ← UInt8.toNat_inj, UInt8.reduceToNat]
  omega

lemma isPlain_of_hex4 {a b c d : UInt8} (h : (hex4 a b c d).isSome) :
    IsPlain a ∧ IsPlain b ∧ IsPlain c ∧ IsPlain d := by
  simp only [hex4, Option.bind_eq_bind, Option.isSome_bind, Option.any_eq_true] at h
  obtain ⟨_, ha, _, hb, _, hc, _, hd, -⟩ := h
  refine ⟨?_, ?_, ?_, ?_⟩ <;> apply isPlain_of_hexVal <;> simp [*]

/-- A character of a string as it is written. -/
inductive Chr where
  | byte (b : UInt8) (h : IsPlain b)
  /-- a backslash and a letter -/
  | esc (c : UInt8) (h : (escaped c).isSome)
  /-- a backslash, `u` and four digits -/
  | code (a b c d : UInt8) (h : (hex4 a b c d).isSome)

def Chr.text : Chr → Bytes
  | byte b _ => [b]
  | esc c _ => [92, c]
  | code a b c d _ => [92, 117, a, b, c, d]

abbrev Str := List Chr

namespace Str

/-- What stands between the quotes. -/
def text (s : Str) : Bytes := s.flatMap Chr.text

def quoted (s : Str) : Bytes := 34 :: s.text ++ [34]

/-- The string that is written without escapes, of the bytes that can be. -/
def plain (t : Bytes) : Str :=
  t.filterMap fun b => if h : IsPlain b then some (.byte b h) else none

end Str

/-- UTF-8 -/
def encode (c : ℕ) : Bytes :=
  if c < 0x80 then [UInt8.ofNat c]
  else if c < 0x800 then [UInt8.ofNat (0xC0 + c / 64), UInt8.ofNat (0x80 + c % 64)]
  else if c < 0x10000 then
    [UInt8.ofNat (0xE0 + c / 4096), UInt8.ofNat (0x80 + c / 64 % 64), UInt8.ofNat (0x80 + c % 64)]
  else
    [UInt8.ofNat (0xF0 + c / 262144), UInt8.ofNat (0x80 + c / 4096 % 64),
      UInt8.ofNat (0x80 + c / 64 % 64), UInt8.ofNat (0x80 + c % 64)]

/-- What a string stands for, with the codes of a surrogate pair joined. -/
def Str.value : Str → Bytes
  | [] => []
  | .byte b _ :: s => b :: Str.value s
  | .esc c h :: s => (escaped c).get h :: Str.value s
  | .code a b c d h :: .code a' b' c' d' h' :: s =>
    let hi := (hex4 a b c d).get h
    let lo := (hex4 a' b' c' d').get h'
    if (0xD800 ≤ hi ∧ hi ≤ 0xDBFF) ∧ 0xDC00 ≤ lo ∧ lo ≤ 0xDFFF then
      encode (0x10000 + (hi - 0xD800) * 0x400 + (lo - 0xDC00)) ++ Str.value s
    else encode hi ++ Str.value (.code a' b' c' d' h' :: s)
  | .code a b c d h :: s => encode ((hex4 a b c d).get h) ++ Str.value s

section

variable {s : Str}

@[simp] lemma Str.text_nil : Str.text [] = [] := rfl

@[simp] lemma Str.text_cons (c : Chr) : Str.text (c :: s) = c.text ++ s.text := rfl

/-- Without a backslash, the characters of a string stand for themselves. -/
lemma Str.eq_byte_of_mem (h : 92 ∉ s.text) {c : Chr} (hc : c ∈ s) : ∃ b hb, c = .byte b hb := by
  have hc92 : 92 ∉ c.text := fun hmem => h (List.mem_flatMap.mpr ⟨c, hc, hmem⟩)
  cases c with
  | byte b hb => exact ⟨b, hb, rfl⟩
  | esc c hc => simp [Chr.text] at hc92
  | code a b c d hd => simp [Chr.text] at hc92

/-- A string without escapes stands for its text. -/
lemma Str.value_eq_text (h : 92 ∉ s.text) : s.value = s.text := by
  induction s with
  | nil => rfl
  | cons c s ih =>
    obtain ⟨b, hb, rfl⟩ := Str.eq_byte_of_mem h List.mem_cons_self
    rw [Str.text_cons, List.mem_append, not_or] at h
    rw [Str.value, ih h.2, Str.text_cons, Chr.text, List.singleton_append]

end

/-! ### Numbers and names -/

def IsDigits (t : Bytes) : Prop := t ≠ [] ∧ ∀ d ∈ t, isDigit d = true

/-- A number as it is written, in its four parts. -/
structure IsNumber (t sign int frac exp : Bytes) : Prop where
  eq : t = sign ++ int ++ frac ++ exp
  sign : sign = [] ∨ sign = [45]
  int : IsDigits int ∧ (int.head? = some 48 → int = [48])
  frac : frac = [] ∨ ∃ ds, IsDigits ds ∧ frac = 46 :: ds
  exp : exp = [] ∨ ∃ e sign ds, (e = 69 ∨ e = 101) ∧ (sign = [] ∨ sign = [43] ∨ sign = [45]) ∧
    IsDigits ds ∧ exp = e :: sign ++ ds

/-- A number, or one of the names `true`, `false` and `null`. -/
def IsLit (t : Bytes) : Prop :=
  (∃ sign int frac exp, IsNumber t sign int frac exp) ∨
    t = [116, 114, 117, 101] ∨ t = [102, 97, 108, 115, 101] ∨ t = [110, 117, 108, 108]

section

variable {t sign int frac exp : Bytes}

lemma IsDigits.quote_notMem (h : IsDigits t) : 34 ∉ t := by
  intro hmem
  exact absurd (h.2 34 hmem) (by decide)

lemma IsNumber.quote_notMem (h : IsNumber t sign int frac exp) : 34 ∉ t := by
  have hsign : 34 ∉ sign := by
    obtain rfl | rfl := h.sign <;> decide
  have hfrac : 34 ∉ frac := by
    obtain rfl | ⟨ds, hds, rfl⟩ := h.frac
    · decide
    · simp [hds.quote_notMem]
  have hexp : 34 ∉ exp := by
    obtain rfl | ⟨e, sg, ds, he, hsg, hds, rfl⟩ := h.exp
    · decide
    · obtain rfl | rfl := he <;> obtain rfl | rfl | rfl := hsg <;> simp [hds.quote_notMem]
  simp [h.eq, hsign, hfrac, hexp, h.int.1.quote_notMem]

lemma IsLit.quote_notMem (h : IsLit t) : 34 ∉ t := by
  obtain ⟨sign, int, frac, exp, hnum⟩ | rfl | rfl | rfl := h
  · exact hnum.quote_notMem
  all_goals decide

/-- A literal starts with a letter, a digit or a sign. -/
lemma IsLit.head (h : IsLit t) :
    ∃ c rest, t = c :: rest ∧ (isDigit c = true ∨ c = 45 ∨ c = 116 ∨ c = 102 ∨ c = 110) := by
  obtain ⟨sign, int, frac, exp, hnum⟩ | rfl | rfl | rfl := h
  · obtain ⟨d, int, rfl⟩ := List.exists_cons_of_ne_nil hnum.int.1.1
    obtain rfl | rfl := hnum.sign
    · exact ⟨d, _, hnum.eq, .inl (hnum.int.1.2 d (by simp))⟩
    · exact ⟨45, _, hnum.eq, .inr (.inl rfl)⟩
  all_goals exact ⟨_, _, rfl, by decide⟩

end

/-! ### Values -/

/-- A value, its strings and literals as they are written. -/
inductive Value where
  | lit (t : Bytes) (h : IsLit t)
  | str (s : Str)
  | arr (vs : List Value)
  | obj (ms : List (Str × Value))

abbrev Member := Str × Value

/-- The value of a member: with several of one name, that of the first. -/
def get? (ms : List Member) (name : Bytes) : Option Value :=
  (ms.find? (·.1.value = name)).map (·.2)

def IsWs (w : Bytes) : Prop := ∀ c ∈ w, c = 32 ∨ c = 9 ∨ c = 10 ∨ c = 13

mutual

/-- The texts of a value. -/
inductive IsValue : Value → Bytes → Prop
  | lit {t : Bytes} (h : IsLit t) : IsValue (.lit t h) t
  | str (s : Str) : IsValue (.str s) s.quoted
  | arr {vs : List Value} {t : Bytes} : IsElems vs t → IsValue (.arr vs) (91 :: t ++ [93])
  | obj {ms : List Member} {t : Bytes} : IsMembers ms t → IsValue (.obj ms) (123 :: t ++ [125])

/-- The texts between the brackets of an array. -/
inductive IsElems : List Value → Bytes → Prop
  | nil {w : Bytes} : IsWs w → IsElems [] w
  | last {v : Value} {w t w' : Bytes} : IsWs w → IsValue v t → IsWs w' →
      IsElems [v] (w ++ t ++ w')
  | cons {v v' : Value} {vs : List Value} {w t w' t' : Bytes} : IsWs w → IsValue v t → IsWs w' →
      IsElems (v' :: vs) t' → IsElems (v :: v' :: vs) (w ++ t ++ w' ++ 44 :: t')

/-- The texts between the braces of an object. -/
inductive IsMembers : List Member → Bytes → Prop
  | nil {w : Bytes} : IsWs w → IsMembers [] w
  | last {m : Member} {w t w' : Bytes} : IsWs w → IsMember m t → IsWs w' →
      IsMembers [m] (w ++ t ++ w')
  | cons {m m' : Member} {ms : List Member} {w t w' t' : Bytes} : IsWs w → IsMember m t →
      IsWs w' → IsMembers (m' :: ms) t' → IsMembers (m :: m' :: ms) (w ++ t ++ w' ++ 44 :: t')

inductive IsMember : Member → Bytes → Prop
  | mk {k : Str} {v : Value} {w w' t : Bytes} : IsWs w → IsWs w' → IsValue v t →
      IsMember (k, v) (k.quoted ++ w ++ 58 :: w' ++ t)

end

/-- The texts of a document: a value, with whitespace around it. -/
def IsDocument (v : Value) (t : Bytes) : Prop :=
  ∃ w t' w', IsWs w ∧ IsValue v t' ∧ IsWs w' ∧ t = w ++ t' ++ w'

lemma IsDocument.ne_nil {v : Value} {t : Bytes} (h : IsDocument v t) : t ≠ [] := by
  obtain ⟨w, t, w', -, ht, -, rfl⟩ := h
  have hne : t ≠ [] := by
    cases ht with
    | lit ht =>
      obtain ⟨c, rest, rfl, -⟩ := ht.head
      exact List.cons_ne_nil c rest
    | str s => exact List.cons_ne_nil _ _
    | arr hvs => exact List.cons_ne_nil _ _
    | obj hms => exact List.cons_ne_nil _ _
  simp [hne]

/-! ### The shortest text -/

mutual

/-- The text of a value without whitespace. -/
def Value.print : Value → Bytes
  | .lit t _ => t
  | .str s => s.quoted
  | .arr vs => 91 :: printElems vs ++ [93]
  | .obj ms => 123 :: printMembers ms ++ [125]

def printElems : List Value → Bytes
  | [] => []
  | [v] => v.print
  | v :: v' :: vs => v.print ++ 44 :: printElems (v' :: vs)

def printMembers : List Member → Bytes
  | [] => []
  | [(k, v)] => k.quoted ++ 58 :: v.print
  | (k, v) :: m :: ms => k.quoted ++ 58 :: v.print ++ 44 :: printMembers (m :: ms)

end

lemma isWs_nil : IsWs [] := by simp [IsWs]

mutual

lemma isValue_print (v : Value) : IsValue v v.print := by
  match v with
  | .lit t h => exact .lit h
  | .str s => exact .str s
  | .arr vs => exact .arr (isElems_print vs)
  | .obj ms => exact .obj (isMembers_print ms)

lemma isElems_print (vs : List Value) : IsElems vs (printElems vs) := by
  match vs with
  | [] => exact .nil isWs_nil
  | [v] => simpa [printElems] using IsElems.last isWs_nil (isValue_print v) isWs_nil
  | v :: v' :: vs =>
    simpa [printElems] using
      IsElems.cons isWs_nil (isValue_print v) isWs_nil (isElems_print (v' :: vs))

lemma isMembers_print (ms : List Member) : IsMembers ms (printMembers ms) := by
  match ms with
  | [] => exact .nil isWs_nil
  | [(k, v)] =>
    simpa [printMembers] using
      IsMembers.last isWs_nil (.mk (k := k) isWs_nil isWs_nil (isValue_print v)) isWs_nil
  | (k, v) :: m :: ms =>
    simpa [printMembers] using
      IsMembers.cons isWs_nil (.mk (k := k) isWs_nil isWs_nil (isValue_print v)) isWs_nil
        (isMembers_print (m :: ms))

end

lemma isDocument_print (v : Value) : IsDocument v v.print :=
  ⟨[], v.print, [], isWs_nil, isValue_print v, isWs_nil, by simp⟩

/-! ### The strings of a value -/

/-- A string of a document, with the value of the member if it is a key. -/
abbrev Entry := Str × Option Value

mutual

/-- The strings of a value in the order of its text. -/
def Value.strings : Value → List Entry
  | .lit _ _ => []
  | .str s => [(s, none)]
  | .arr vs => elemStrings vs
  | .obj ms => memberStrings ms

def elemStrings : List Value → List Entry
  | [] => []
  | v :: vs => v.strings ++ elemStrings vs

def memberStrings : List Member → List Entry
  | [] => []
  | (k, v) :: ms => (k, some v) :: (v.strings ++ memberStrings ms)

end

@[simp] lemma elemStrings_append (vs vs' : List Value) :
    elemStrings (vs ++ vs') = elemStrings vs ++ elemStrings vs' := by
  induction vs with
  | nil => rfl
  | cons v vs ih => simp [elemStrings, ih]

@[simp] lemma memberStrings_append (ms ms' : List Member) :
    memberStrings (ms ++ ms') = memberStrings ms ++ memberStrings ms' := by
  induction ms with
  | nil => rfl
  | cons m ms ih => simp [memberStrings, ih]

/-- An object within a value, with the strings before and after it. -/
inductive Occurs (ms : List Member) : Value → List Entry → List Entry → Prop
  | here : Occurs ms (.obj ms) [] []
  | elem {v : Value} {before after : List Entry} (vs vs' : List Value) :
      Occurs ms v before after →
      Occurs ms (.arr (vs ++ v :: vs')) (elemStrings vs ++ before) (after ++ elemStrings vs')
  | member {v : Value} {before after : List Entry} (k : Str) (ms₁ ms₂ : List Member) :
      Occurs ms v before after →
      Occurs ms (.obj (ms₁ ++ (k, v) :: ms₂)) (memberStrings ms₁ ++ (k, some v) :: before)
        (after ++ memberStrings ms₂)

lemma Occurs.strings_eq {ms : List Member} {v : Value} {before after : List Entry}
    (h : Occurs ms v before after) : v.strings = before ++ memberStrings ms ++ after := by
  induction h with
  | here => simp [Value.strings]
  | elem vs vs' _ ih => simp [Value.strings, elemStrings, ih]
  | member k ms₁ ms₂ _ ih => simp [Value.strings, memberStrings, ih]

end JsonSyntax
