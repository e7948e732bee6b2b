import Anticheat.Lib.Json

/-!
# Reading JSON

The reader of a common JSON library, on text: a string has no raw control characters, a `\u` escape
of a high surrogate is joined with the one of a low surrogate right after it and otherwise stays as
it is, integers have any size, the names `NaN`, `Infinity` and `-Infinity` are numbers, and an
object keeps all its members, of which the last one with a name counts. Every failure of the grammar
is the same error; containers nested deeper than a bound are another.
-/

namespace Json

inductive Value
  | null
  | bool (b : Bool)
  | num (n : Number)
  | str (t : Text)
  | arr (vs : List Value)
  | obj (ms : List (Text × Value))

/-- The text of a value that is one. -/
def Value.text? : Value → Option Text
  | str t => some t
  | _ => none

/-- The integer of a value that is one. -/
def Value.int? : Value → Option ℤ
  | num (.int z) => some z
  | _ => none

/-- The value of a member: with several of one name, that of the last. -/
def get? (ms : List (Text × Value)) (name : Text) : Option Value :=
  (ms.reverse.find? (·.1 = name)).map (·.2)

inductive LoadError
  /-- the text is not of the grammar -/
  | value
  /-- too many containers inside of each other -/
  | recursion
  deriving DecidableEq, Repr

/-- Reads a value from the start of a text, and leaves the rest. -/
abbrev Reader (α : Type) := Text → Except LoadError (α × Text)

def isWs (c : ℕ) : Bool := c = 32 || c = 9 || c = 10 || c = 13

def skipWs (t : Text) : Text := t.dropWhile isWs

/-! ### Strings -/

def hexVal (c : ℕ) : Option ℕ :=
  if 48 ≤ c ∧ c ≤ 57 then some (c - 48)
  else if 97 ≤ c ∧ c ≤ 102 then some (c - 87)
  else if 65 ≤ c ∧ c ≤ 70 then some (c - 55)
  else none

/-- Four hexadecimal digits. -/
def hex4 (a b c d : ℕ) : Option ℕ := do
  let a ← hexVal a
  let b ← hexVal b
  let c ← hexVal c
  let d ← hexVal d
  return ((a * 16 + b) * 16 + c) * 16 + d

/-- The character of an escape with a single letter. -/
def escape : ℕ → Option ℕ
  | 34 => some 34
  | 92 => some 92
  | 47 => some 47
  | 98 => some 8
  | 102 => some 12
  | 110 => some 10
  | 114 => some 13
  | 116 => some 9
  | _ => none

/-- A character of a string, and whether it was given by its code. -/
abbrev CodeUnit := ℕ × Bool

/-- The characters of a string up to its closing quote, the opening one being read. -/
def scanUnits : Reader (List CodeUnit)
  | [] => .error .value
  | 34 :: t => .ok ([], t)
  | 92 :: 117 :: a :: b :: c :: d :: t =>
    match hex4 a b c d with
    | none => .error .value
    | some n => (scanUnits t).map fun p => ((n, true) :: p.1, p.2)
  | 92 :: c :: t =>
    match escape c with
    | none => .error .value
    | some n => (scanUnits t).map fun p => ((n, false) :: p.1, p.2)
  | c :: t =>
    if c < 32 ∨ c = 92 then .error .value
    else (scanUnits t).map fun p => ((c, false) :: p.1, p.2)

def isHigh (c : ℕ) : Bool := 0xD800 ≤ c && c ≤ 0xDBFF

def isLow (c : ℕ) : Bool := 0xDC00 ≤ c && c ≤ 0xDFFF

/-- The text of the characters, with surrogates that were given by their codes joined. -/
def joinPairs : List CodeUnit → Text
  | [] => []
  | (h, true) :: (l, true) :: us =>
    if isHigh h ∧ isLow l then (0x10000 + (h - 0xD800) * 0x400 + (l - 0xDC00)) :: joinPairs us
    else h :: joinPairs ((l, true) :: us)
  | (c, _) :: us => c :: joinPairs us

def scanString : Reader Text := fun t => (scanUnits t).map fun p => (joinPairs p.1, p.2)

/-! ### Numbers -/

def isDigit (c : ℕ) : Bool := 48 ≤ c && c ≤ 57

/-- The number that decimal digits stand for. -/
def digitsVal (ds : Text) : ℕ := ds.foldl (fun n d => n * 10 + (d - 48)) 0

/-- The digits at the start of a text, and the rest. -/
def spanDigits (t : Text) : Text × Text := (t.takeWhile isDigit, t.dropWhile isDigit)

/-- The integer part of a number: a zero, or digits that start with another one. -/
def scanInt (t : Text) : Option (Text × Text) :=
  match t with
  | 48 :: t => some ([48], t)
  | c :: t => if isDigit c then some (spanDigits (c :: t)) else none
  | [] => none

/-- The digits after a point, if there are any. -/
def scanFrac (t : Text) : Option (Text × Text) :=
  match t with
  | 46 :: t => if (spanDigits t).1 = [] then none else some (spanDigits t)
  | _ => none

/-- The exponent, if there is one with digits. -/
def scanExp (t : Text) : Option (ℤ × Text) :=
  match t with
  | c :: t =>
    if c = 101 ∨ c = 69 then
      let neg := t.head? = some 45
      let t := if neg ∨ t.head? = some 43 then t.tail else t
      let (ds, t) := spanDigits t
      if ds = [] then none
      else some (if neg then -(digitsVal ds : ℤ) else digitsVal ds, t)
    else none
  | [] => none

def scanNumber (t : Text) : Option (Number × Text) := do
  let neg := t.head? = some 45
  let (int, t) ← scanInt (if neg then t.tail else t)
  match scanFrac t, scanExp ((scanFrac t).elim t (·.2)) with
  | none, none => return (.int (if neg then -(digitsVal int : ℤ) else digitsVal int), t)
  | some (frac, t), none => return (.dec neg (digitsVal (int ++ frac)) (-frac.length), t)
  | none, some (exp, t) => return (.dec neg (digitsVal int) exp, t)
  | some (frac, _), some (exp, t) =>
    return (.dec neg (digitsVal (int ++ frac)) (exp - frac.length), t)

/-! ### Values -/

/-- One item or more, with a comma between two of them, up to the character `close`. Each takes a
comma, so that the length of the text is enough fuel. -/
def items {α : Type} (item : Reader α) (close : ℕ) : ℕ → Reader (List α)
  | 0, _ => .error .value
  | n + 1, t => do
    let (a, t) ← item t
    match skipWs t with
    | [] => .error .value
    | c :: t =>
      if c = close then return ([a], t)
      else if c = 44 then
        let (as, t) ← items item close n (skipWs t)
        return (a :: as, t)
      else .error .value

/-- The items of a container, whose opening character is read. -/
def container {α : Type} (item : Reader α) (close : ℕ) : Reader (List α) := fun t =>
  match skipWs t with
  | [] => .error .value
  | c :: t => if c = close then .ok ([], t) else items item close (t.length + 2) (c :: t)

/-- A member of an object. -/
def scanMember (value : Reader Value) : Reader (Text × Value)
  | 34 :: t => do
    let (name, t) ← scanString t
    match skipWs t with
    | 58 :: t => do
      let (v, t) ← value (skipWs t)
      return ((name, v), t)
    | _ => .error .value
  | _ => .error .value

/-- A value, given how a container inside of it is read. -/
def scanValue (array : Reader (List Value)) (object : Reader (List (Text × Value))) :
    Reader Value := fun t =>
  match t with
  | 34 :: t => do
    let (s, t) ← scanString t
    return (.str s, t)
  | 123 :: t => do
    let (ms, t) ← object t
    return (.obj ms, t)
  | 91 :: t => do
    let (vs, t) ← array t
    return (.arr vs, t)
  | 110 :: 117 :: 108 :: 108 :: t => .ok (.null, t)
  | 116 :: 114 :: 117 :: 101 :: t => .ok (.bool true, t)
  | 102 :: 97 :: 108 :: 115 :: 101 :: t => .ok (.bool false, t)
  | 78 :: 97 :: 78 :: t => .ok (.num .nan, t)
  | 73 :: 110 :: 102 :: 105 :: 110 :: 105 :: 116 :: 121 :: t => .ok (.num (.inf false), t)
  | 45 :: 73 :: 110 :: 102 :: 105 :: 110 :: 105 :: 116 :: 121 :: t => .ok (.num (.inf true), t)
  | t =>
    match scanNumber t with
    | some (n, t) => .ok (.num n, t)
    | none => .error .value

/-- A value with containers to a depth of at most `depth`. -/
def scanOnce : ℕ → Reader Value
  | 0 => scanValue (fun _ => .error .recursion) fun _ => .error .recursion
  | depth + 1 => scanValue (container (scanOnce depth) 93)
      (container (scanMember (scanOnce depth)) 125)

/-- The value of a whole text, whose container holds others to a depth of at most `depth`. -/
def loads (depth : ℕ) (t : Text) : Except LoadError Value := do
  if t.head? = some 0xFEFF then .error .value
  else
    let (v, t) ← scanOnce (depth + 1) (skipWs t)
    if skipWs t = [] then return v else .error .value

lemma bind_eq_ok {ε α β : Type} {x : Except ε α} {f : α → Except ε β} {b : β} :
    (x >>= f) = .ok b ↔ ∃ a, x = .ok a ∧ f a = .ok b := by
  cases x <;> simp [bind, Except.bind]

/-! ### Reading back what was written -/

section

variable {t rest : Text}

/-- A character of a string is read from its escape. -/
def Escapes (e : ℕ → Text) (c : ℕ) : Prop :=
  ∃ coded, ∀ t, scanUnits (e c ++ t) = (scanUnits t).map fun p => ((c, coded) :: p.1, p.2)

lemma joinPairs_eq {us : List CodeUnit} (h : ∀ u ∈ us, isHigh u.1 = false) :
    joinPairs us = us.map (·.1) := by
  fun_induction joinPairs us with
  | case1 => rfl
  | case2 high low us hpair ih => simp [h (high, true) List.mem_cons_self] at hpair
  | case3 high low us hpair ih => simp [ih fun u hu => h u (List.mem_cons_of_mem _ hu)]
  | case4 c coded us hne ih => simp [ih fun u hu => h u (List.mem_cons_of_mem _ hu)]

/-- A string is read from the escapes of its characters. -/
lemma scanString_flatMap {e : ℕ → Text} {s : Text} (he : ∀ c ∈ s, Escapes e c)
    (hs : ∀ c ∈ s, isHigh c = false) : scanString (s.flatMap e ++ 34 :: t) = .ok (s, t) := by
  have hunits : ∃ us, scanUnits (s.flatMap e ++ 34 :: t) = .ok (us, t) ∧ us.map (·.1) = s := by
    clear hs
    induction s with
    | nil => exact ⟨[], rfl, rfl⟩
    | cons c s ih =>
      obtain ⟨⟨coded, hc⟩, hs⟩ := List.forall_mem_cons.mp he
      obtain ⟨us, hus, hmap⟩ := ih hs
      refine ⟨(c, coded) :: us, ?_, by simp [hmap]⟩
      rw [List.flatMap_cons, List.append_assoc, hc, hus]
      rfl
  obtain ⟨us, hus, rfl⟩ := hunits
  rw [scanString, hus]
  simp only [Except.map, joinPairs_eq fun u hu => hs u.1 (List.mem_map_of_mem hu)]

/-- A character that stands for itself. -/
lemma escapes_self {c : ℕ} (h32 : 32 ≤ c) (h34 : c ≠ 34) (h92 : c ≠ 92) :
    Escapes (fun c => [c]) c := by
  refine ⟨false, fun t => ?_⟩
  rw [List.singleton_append, scanUnits]
  · simp [h92, Nat.not_lt.mpr h32]
  · exact h34
  · exact fun _ _ _ _ _ h => absurd h h92
  · exact fun _ _ h => absurd h h92

/-- Text of such characters is read as it is. -/
lemma scanString_plain {s : Text} (hs : ∀ c ∈ s, 32 ≤ c ∧ c ≠ 34 ∧ c ≠ 92 ∧ isHigh c = false) :
    scanString (s ++ 34 :: t) = .ok (s, t) := by
  have h := scanString_flatMap (t := t) (e := fun c => [c])
    (fun c hc => escapes_self (hs c hc).1 (hs c hc).2.1 (hs c hc).2.2.1) fun c hc => (hs c hc).2.2.2
  simpa using h

/-- The text after a number: it does not go on with it. -/
def EndsNumber (t : Text) : Prop :=
  ∀ c ∈ t.head?, isDigit c = false ∧ c ≠ 46 ∧ c ≠ 101 ∧ c ≠ 69

lemma digitsVal_map (ds : List ℕ) :
    digitsVal (ds.map (48 + ·)) = ds.foldl (fun n d => n * 10 + d) 0 := by
  simp [digitsVal, List.foldl_map]

lemma spanDigits_map {ds : List ℕ} (hds : ∀ d ∈ ds, d < 10) (hend : EndsNumber t) :
    spanDigits (ds.map (48 + ·) ++ t) = (ds.map (48 + ·), t) := by
  have hdigit : ∀ c ∈ ds.map (48 + ·), isDigit c = true := by
    intro c hc
    obtain ⟨d, hd, rfl⟩ := List.mem_map.mp hc
    have := hds d hd
    simp [isDigit]
    omega
  have hnil : t.takeWhile isDigit = [] ∧ t.dropWhile isDigit = t := by
    cases t with
    | nil => exact ⟨rfl, rfl⟩
    | cons c t => simp [(hend c rfl).1]
  rw [spanDigits, List.takeWhile_append_of_pos hdigit, List.dropWhile_append_of_pos hdigit,
    hnil.1, hnil.2, List.append_nil]

/-- An integer is read from its digits, which start with a zero only if there is just one. -/
lemma scanNumber_int (neg : Bool) {ds : List ℕ} (hds : ∀ d ∈ ds, d < 10) (hne : ds ≠ [])
    (hlead : ds = [0] ∨ ∀ d ∈ ds.head?, d ≠ 0) (hend : EndsNumber t) :
    scanNumber ((if neg then [45] else []) ++ ds.map (48 + ·) ++ t) =
      some (.int (if neg then -(ds.foldl (fun n d => n * 10 + d) 0 : ℕ)
        else (ds.foldl (fun n d => n * 10 + d) 0 : ℕ)), t) := by
  obtain ⟨d, ds', rfl⟩ := List.exists_cons_of_ne_nil hne
  have hd := hds d List.mem_cons_self
  have hint : scanInt ((d :: ds').map (48 + ·) ++ t) = some ((d :: ds').map (48 + ·), t) := by
    rcases hlead with h0 | h0
    · cases h0
      rfl
    · have hd0 := h0 d rfl
      rw [← spanDigits_map hds hend, List.map_cons, List.cons_append, scanInt]
      · rw [if_pos (by simp [isDigit]; omega)]
      · omega
  have hfrac : scanFrac t = none := by
    unfold scanFrac
    split
    · exact absurd rfl (hend 46 rfl).2.1
    · rfl
  have hexp : scanExp t = none := by
    cases t with
    | nil => rfl
    | cons c t => simp [scanExp, (hend c rfl).2.2.1, (hend c rfl).2.2.2]
  have hhead : ((d :: ds').map (48 + ·) ++ t).head? ≠ some 45 := by
    intro h
    simp only [List.map_cons, List.cons_append, List.head?_cons, Option.some.injEq] at h
    omega
  rw [← digitsVal_map]
  cases neg with
  | false =>
    rw [if_neg Bool.false_ne_true, List.nil_append, scanNumber]
    simp only [hhead, if_false, hint, Option.bind_eq_bind, Option.bind_some, hfrac, Option.elim,
      hexp]
    rfl
  | true =>
    rw [if_pos rfl, List.singleton_append, List.cons_append, scanNumber]
    simp only [List.head?_cons, if_true, List.tail_cons, hint, Option.bind_eq_bind,
      Option.bind_some, hfrac, Option.elim, hexp]
    rfl

/-! Values, one by one. -/

lemma scanOnce_str {s : Text} (depth : ℕ) (h : scanString t = .ok (s, rest)) :
    scanOnce depth (34 :: t) = .ok (.str s, rest) := by
  cases depth <;> simp [scanOnce, scanValue, h, bind, Except.bind, pure, Except.pure]

/-- A text that starts like a number, and not like the name of an infinity, is read as one. -/
lemma scanOnce_num {n : Number} (depth : ℕ) (hhead : ∀ c ∈ t.head?, isDigit c = true ∨ c = 45)
    (hname : ∀ t', t ≠ 45 :: 73 :: t') (h : scanNumber t = some (n, rest)) :
    scanOnce depth t = .ok (.num n, rest) := by
  have hvalue : ∀ array object, scanValue array object t = .ok (.num n, rest) := by
    intro array object
    unfold scanValue
    split
    case h_9 => exact absurd rfl (hname _)
    case h_10 => simp [h]
    all_goals exact absurd (hhead _ rfl) (by decide)
  cases depth with
  | zero => exact hvalue _ _
  | succ depth => exact hvalue _ _

lemma skipWs_eq (h : ∀ c ∈ t.head?, isWs c = false) : skipWs t = t := by
  cases t with
  | nil => rfl
  | cons c t => simp [skipWs, h c rfl]

variable {α : Type} {item : Reader α} {close n : ℕ} {a : α}

lemma items_comma (h : item t = .ok (a, 44 :: rest)) (hclose : close ≠ 44) :
    items item close (n + 1) t =
      (items item close n (skipWs rest)).map fun p => (a :: p.1, p.2) := by
  have hws : skipWs (44 :: rest) = 44 :: rest := rfl
  simp only [items, h, bind, Except.bind, hws, hclose.symm, if_false, if_true]
  cases items item close n (skipWs rest) <;> rfl

lemma items_close (h : item t = .ok (a, close :: rest)) (hws : isWs close = false) :
    items item close (n + 1) t = .ok ([a], rest) := by
  have hskip : skipWs (close :: rest) = close :: rest := by simp [skipWs, hws]
  simp only [items, h, bind, Except.bind, hskip, if_true]
  rfl

/-- A text that is one object. -/
lemma loads_object {depth c : ℕ} {ms : List (Text × Value)} (hc : isWs c = false) (hclose : c ≠ 125)
    (h : items (scanMember (scanOnce depth)) 125 (t.length + 2) (c :: t) = .ok (ms, [])) :
    loads depth (123 :: c :: t) = .ok (.obj ms) := by
  have hskip : skipWs (c :: t) = c :: t := skipWs_eq fun d hd => by
    rw [← Option.some.inj hd]
    exact hc
  have hcontainer : container (scanMember (scanOnce depth)) 125 (c :: t) = .ok (ms, []) := by
    simp only [container, hskip, hclose, if_false, h]
  have honce : scanOnce (depth + 1) (123 :: c :: t) = .ok (.obj ms, []) := by
    simp only [scanOnce, scanValue, hcontainer, bind, Except.bind, pure, Except.pure]
  have hws : skipWs (123 :: c :: t) = 123 :: c :: t := rfl
  have hnil : skipWs [] = [] := rfl
  simp [loads, hws, honce, hnil, bind, Except.bind, pure, Except.pure]

lemma scanMember_eq {value : Reader Value} {name : Text} {v : Value} {t' : Text}
    (hname : scanString t = .ok (name, 58 :: t')) (hv : value (skipWs t') = .ok (v, rest)) :
    scanMember value (34 :: t) = .ok ((name, v), rest) := by
  have hws : skipWs (58 :: t') = 58 :: t' := rfl
  simp only [scanMember, hname, bind, Except.bind, hws, hv]
  rfl

end

end Json
