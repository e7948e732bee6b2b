import Mathlib.Data.List.TakeWhile
import Mathlib.Data.Nat.Digits.Lemmas
import Mathlib.Tactic.Common

/-!
# Reading text with the C library

A stream is the list of bytes still to be read. `fgets` reads a line through a buffer of fixed
size, so that a line longer than the buffer comes in several pieces; `sscanf` works on one piece.
-/

namespace CText

abbrev Bytes := List UInt8

/-- `isspace` in the C locale -/
def isspace (c : UInt8) : Bool := c = 32 || (9 ≤ c && c ≤ 13)

/-! ### `fgets` -/

/-- Read up to `n` bytes, no further than the first newline. -/
def readLine : ℕ → Bytes → Bytes × Bytes
  | 0, t => ([], t)
  | _ + 1, [] => ([], [])
  | n + 1, c :: t => if c = 10 then ([c], t) else ((c :: (readLine n t).1), (readLine n t).2)

/-- `fgets` with a buffer of `size` bytes: the piece read and the rest of the stream. -/
def fgets (size : ℕ) (t : Bytes) : Option (Bytes × Bytes) :=
  if t = [] then none else some (readLine (size - 1) t)

/-- The first `n` pieces that repeated calls of `fgets` read. -/
def pieces (size : ℕ) : ℕ → Bytes → List Bytes
  | 0, _ => []
  | n + 1, t =>
    match fgets size t with
    | none => []
    | some (l, t') => l :: pieces size n t'

/-- All pieces; each of them takes at least one byte. -/
def fgetsAll (size : ℕ) (t : Bytes) : List Bytes := pieces size t.length t

variable {size n : ℕ} {l t : Bytes}

lemma readLine_append_newline (hl : 10 ∉ l) (hn : l.length < n) (t : Bytes) :
    readLine n (l ++ 10 :: t) = (l ++ [10], t) := by
  induction l generalizing n with
  | nil =>
    obtain ⟨n, rfl⟩ := Nat.exists_eq_add_of_lt hn
    simp [readLine]
  | cons c l ih =>
    obtain ⟨n, rfl⟩ := Nat.exists_eq_add_of_lt hn
    rw [List.mem_cons, not_or] at hl
    have hrest := ih (n := l.length + 1 + n) hl.2 (by omega)
    simp only [List.length_cons, List.cons_append] at hrest ⊢
    rw [show l.length + 1 + n + 1 = (l.length + 1 + n) + 1 from rfl, readLine,
      if_neg (Ne.symm hl.1), hrest]

lemma readLine_last (hl : 10 ∉ l) (hn : l.length ≤ n) : readLine n l = (l, []) := by
  induction l generalizing n with
  | nil => cases n <;> rfl
  | cons c l ih =>
    obtain ⟨n, rfl⟩ := Nat.exists_eq_add_of_lt (show 0 < n from Nat.lt_of_lt_of_le (by simp) hn)
    rw [List.mem_cons, not_or] at hl
    have hrest := ih (n := 0 + n) hl.2 (by simpa using hn)
    rw [readLine, if_neg (Ne.symm hl.1), hrest]

lemma length_readLine_lt (hn : 0 < n) (ht : t ≠ []) : (readLine n t).2.length < t.length := by
  have hle : ∀ n (t : Bytes), (readLine n t).2.length ≤ t.length := by
    intro n t
    induction t generalizing n with
    | nil => cases n <;> simp [readLine]
    | cons c t ih =>
      cases n with
      | zero => simp [readLine]
      | succ n =>
        rw [readLine]
        split_ifs
        · simp
        · exact Nat.le_trans (ih n) (by simp)
  obtain ⟨n, rfl⟩ := Nat.exists_eq_add_of_lt hn
  obtain ⟨c, t, rfl⟩ := List.exists_cons_of_ne_nil ht
  rw [readLine]
  split_ifs
  · simp
  · exact Nat.lt_succ_of_le (hle _ _)

/-- More calls than there are bytes read no more pieces. -/
lemma pieces_of_le (hsize : 1 < size) (hn : t.length ≤ n) : pieces size n t = fgetsAll size t := by
  have hboth : ∀ m k (t : Bytes), t.length ≤ m → t.length ≤ k →
      pieces size m t = pieces size k t := by
    intro m
    induction m with
    | zero =>
      intro k t hm _
      rw [List.eq_nil_of_length_eq_zero (Nat.le_zero.mp hm)]
      cases k <;> rfl
    | succ m ih =>
      intro k t hm hk
      by_cases ht : t = []
      · subst ht
        cases k <;> rfl
      · have hlt := length_readLine_lt (n := size - 1) (by omega) ht
        obtain ⟨k, rfl⟩ : ∃ k', k = k' + 1 :=
          Nat.exists_eq_succ_of_ne_zero (by have := List.length_pos_iff.mpr ht; omega)
        rw [pieces, pieces, fgets, if_neg ht]
        exact congrArg _ (ih k _ (by omega) (by omega))
  exact hboth _ _ t hn (Nat.le_refl _)

lemma fgetsAll_nil : fgetsAll size [] = [] := rfl

lemma fgetsAll_append_newline (hl : 10 ∉ l) (hlen : l.length + 1 < size) (t : Bytes) :
    fgetsAll size (l ++ 10 :: t) = (l ++ [10]) :: fgetsAll size t := by
  rw [fgetsAll, List.length_append, List.length_cons, ← Nat.add_assoc, pieces, fgets,
    if_neg (by simp), readLine_append_newline hl (by omega)]
  exact congrArg _ (pieces_of_le (by omega) (by omega))

lemma fgetsAll_last (hl : 10 ∉ l) (hne : l ≠ []) (hlen : l.length < size) :
    fgetsAll size l = [l] := by
  obtain ⟨c, l, rfl⟩ := List.exists_cons_of_ne_nil hne
  rw [fgetsAll, List.length_cons, pieces, fgets, if_neg hne,
    readLine_last hl (by simp at hlen ⊢; omega)]
  cases l.length <;> rfl

/-- When every line fits the buffer, the pieces are the lines. It is said for what a caller makes of
them, which need not notice the newline. -/
lemma filterMap_fgetsAll {β : Type*} {f : Bytes → Option β} (hnil : f [] = none)
    (hf : ∀ l ∈ t.splitOn 10, f (l ++ [10]) = f l)
    (hshort : ∀ l ∈ t.splitOn 10, l.length + 1 < size) :
    (fgetsAll size t).filterMap f = (t.splitOn 10).filterMap f := by
  induction hn : t.length using Nat.strong_induction_on generalizing t with
  | _ n ih =>
    by_cases hmem : (10 : UInt8) ∈ t
    · obtain ⟨l, t', rfl, hl⟩ := List.eq_append_cons_of_mem hmem
      have hsplit : (l ++ 10 :: t').splitOn 10 = l :: t'.splitOn 10 :=
        List.splitOn_append_cons_self_of_not_mem hl _
      rw [hsplit] at hf hshort ⊢
      have hlt : t'.length < n := by
        rw [← hn, List.length_append, List.length_cons]
        omega
      have hrest := ih _ hlt (fun m hm => hf m (List.mem_cons_of_mem _ hm))
        (fun m hm => hshort m (List.mem_cons_of_mem _ hm)) rfl
      have hhead := hf l List.mem_cons_self
      rw [fgetsAll_append_newline hl (hshort l List.mem_cons_self), List.filterMap_cons,
        List.filterMap_cons, hhead, hrest]
    · have hsplit : t.splitOn 10 = [t] := List.splitOn_eq_singleton hmem
      rw [hsplit] at hshort ⊢
      have hlen := hshort t List.mem_cons_self
      rcases eq_or_ne t [] with rfl | hne
      · simp [fgetsAll_nil, hnil]
      · rw [fgetsAll_last hmem hne (by omega)]

/-! ### Words -/

/-- The first word of a line. -/
def firstField (l : Bytes) : Option Bytes :=
  match (l.dropWhile isspace).takeWhile (!isspace ·) with
  | [] => none
  | c :: w => some (c :: w)

/-- `sscanf` with `%ns`: the first word of the string in the buffer, cut after `n` bytes. -/
def scanWord (n : ℕ) (buf : Bytes) : Option Bytes :=
  (firstField (buf.takeWhile (· ≠ 0))).map (·.take n)

lemma firstField_append_newline (l : Bytes) : firstField (l ++ [10]) = firstField l := by
  have hword : ((l ++ [10]).dropWhile isspace).takeWhile (!isspace ·) =
      (l.dropWhile isspace).takeWhile (!isspace ·) := by
    induction l with
    | nil => rfl
    | cons c l ih =>
      by_cases hc : isspace c
      · simpa [List.dropWhile_cons, hc] using ih
      · have htake : ∀ m : Bytes,
            (m ++ [10]).takeWhile (!isspace ·) = m.takeWhile (!isspace ·) := by
          intro m
          induction m with
          | nil => rfl
          | cons d m ihm => simp [List.takeWhile_cons, ihm]
        simpa [List.dropWhile_cons, hc] using htake (c :: l)
  rw [firstField, hword, firstField]

/-- On text without NUL the buffer ends where the piece does. -/
lemma scanWord_of_noNul (h : 0 ∉ l) (n : ℕ) : scanWord n l = (firstField l).map (·.take n) := by
  have hall : l.takeWhile (· ≠ 0) = l := by
    refine List.takeWhile_eq_self_iff.mpr fun c hc => ?_
    simpa using fun h0 : c = 0 => h (h0 ▸ hc)
  rw [scanWord, hall]

/-! ### Printed numbers -/

/-- The digits of a number in a base, the most significant first; zero has one. -/
def baseDigits (b n : ℕ) : List ℕ := if n = 0 then [0] else (Nat.digits b n).reverse

section

variable {b n : ℕ}

lemma lt_of_mem_baseDigits (hb : 1 < b) {d : ℕ} (hd : d ∈ baseDigits b n) : d < b := by
  unfold baseDigits at hd
  split_ifs at hd
  · rw [List.mem_singleton.mp hd]
    exact Nat.lt_trans Nat.zero_lt_one hb
  · exact Nat.digits_lt_base hb (List.mem_reverse.mp hd)

lemma baseDigits_ne_nil (b n : ℕ) : baseDigits b n ≠ [] := by
  unfold baseDigits
  split_ifs with h
  · simp
  · simpa [Nat.digits_eq_nil_iff_eq_zero] using h

lemma foldl_baseDigits (b n : ℕ) : (baseDigits b n).foldl (fun a d => a * b + d) 0 = n := by
  unfold baseDigits
  split_ifs with h
  · simp [h]
  · rw [List.foldl_reverse]
    conv_rhs => rw [← Nat.ofDigits_digits b n, Nat.ofDigits_eq_foldr]
    congr 1
    funext d a
    simp [Nat.mul_comm, Nat.add_comm]

/-- A zero comes first in the digits of zero only. -/
lemma head_baseDigits (hn : n ≠ 0) : ∀ d ∈ (baseDigits b n).head?, d ≠ 0 := by
  intro d hd
  rw [baseDigits, if_neg hn, List.head?_reverse] at hd
  have hne : Nat.digits b n ≠ [] := Nat.digits_ne_nil_iff_ne_zero.mpr hn
  rw [List.getLast?_eq_some_getLast hne, Option.mem_some_iff] at hd
  rw [← hd]
  exact Nat.getLast_digit_ne_zero b hn

lemma length_baseDigits_le (hb : 1 < b) {k : ℕ} (hk : 0 < k) (hn : n < b ^ k) :
    (baseDigits b n).length ≤ k := by
  unfold baseDigits
  split_ifs
  · exact hk
  · rw [List.length_reverse]
    exact (Nat.digits_length_le_iff hb n).mpr hn

end

/-- `printf` with `%lld` -/
def printDec (z : ℤ) : Bytes :=
  (if z < 0 then [45] else []) ++ (baseDigits 10 z.natAbs).map fun d => UInt8.ofNat (48 + d)

/-! ### Hexadecimal numbers -/

/-- The value of a hexadecimal digit. -/
def hexVal (c : UInt8) : Option ℕ :=
  if 48 ≤ c ∧ c ≤ 57 then some (c.toNat - 48)
  else if 97 ≤ c ∧ c ≤ 102 then some (c.toNat - 87)
  else if 65 ≤ c ∧ c ≤ 70 then some (c.toNat - 55)
  else none

/-- The lower-case digit of a value below 16. -/
def hexDigit (d : ℕ) : UInt8 := if d < 10 then UInt8.ofNat (48 + d) else UInt8.ofNat (87 + d)

/-- `fprintf` with `%llx` -/
def printHex (n : ℕ) : Bytes :=
  if n = 0 then [48] else (Nat.digits 16 n).reverse.map hexDigit

/-- Read hexadecimal digits as far as they go. -/
def scanDigits (acc : ℕ) : Bytes → ℕ × Bytes
  | [] => (acc, [])
  | c :: l =>
    match hexVal c with
    | some d => scanDigits (acc * 16 + d) l
    | none => (acc, c :: l)

/-- The digits of a number, after an optional `0x`. -/
def scanUnsigned (l : Bytes) : Option (ℕ × Bytes) :=
  match l with
  | [] => none
  | c :: l' =>
    if hexVal c = none then none
    else if c = 48 ∧ (l'.head? = some 120 ∨ l'.head? = some 88) then some (scanDigits 0 l'.tail)
    else some (scanDigits 0 (c :: l'))

/-- The conversion of the digits to 64 bits, which saturates. -/
def toU64 (neg : Bool) (n : ℕ) : UInt64 :=
  if 2 ^ 64 ≤ n then UInt64.ofNat (2 ^ 64 - 1)
  else if neg then -UInt64.ofNat n else UInt64.ofNat n

/-- `sscanf` with `%llx` -/
def scanHex (l : Bytes) : Option (UInt64 × Bytes) :=
  let l := l.dropWhile isspace
  let neg := l.head? = some 45
  let l := if neg ∨ l.head? = some 43 then l.tail else l
  (scanUnsigned l).map fun p => (toU64 neg p.1, p.2)

lemma hexVal_hexDigit {d : ℕ} (hd : d < 16) : hexVal (hexDigit d) = some d := by
  have hall : ∀ d : Fin 16, hexVal (hexDigit d) = some d.1 := by decide
  exact hall ⟨d, hd⟩

lemma scanDigits_map_hexDigit {ds : List ℕ} (hds : ∀ d ∈ ds, d < 16) {l : Bytes}
    (hl : ∀ c ∈ l.head?, hexVal c = none) (acc : ℕ) :
    scanDigits acc (ds.map hexDigit ++ l) = (ds.foldl (fun a d => a * 16 + d) acc, l) := by
  induction ds generalizing acc with
  | nil =>
    cases l with
    | nil => rfl
    | cons c l => simp [scanDigits, hl c rfl]
  | cons d ds ih =>
    rw [List.map_cons, List.cons_append, scanDigits, hexVal_hexDigit (hds d List.mem_cons_self)]
    exact ih (fun e he => hds e (List.mem_cons_of_mem _ he)) _

/-- The digits that are printed for a number. -/
def printDigits (n : ℕ) : List ℕ := if n = 0 then [0] else (Nat.digits 16 n).reverse

lemma printHex_eq (n : ℕ) : printHex n = (printDigits n).map hexDigit := by
  unfold printHex printDigits
  split_ifs <;> rfl

lemma lt_of_mem_printDigits {n d : ℕ} (hd : d ∈ printDigits n) : d < 16 :=
  lt_of_mem_baseDigits (by decide) hd

lemma printDigits_ne_nil (n : ℕ) : printDigits n ≠ [] := baseDigits_ne_nil 16 n

lemma foldl_printDigits (n : ℕ) : (printDigits n).foldl (fun a d => a * 16 + d) 0 = n :=
  foldl_baseDigits 16 n

lemma hexDigit_ne {d : ℕ} (hd : d < 16) :
    isspace (hexDigit d) = false ∧ hexDigit d ≠ 0 ∧ hexDigit d ≠ 10 ∧ hexDigit d ≠ 43 ∧
      hexDigit d ≠ 45 ∧ hexDigit d ≠ 120 ∧ hexDigit d ≠ 88 := by
  have hall : ∀ d : Fin 16, isspace (hexDigit d) = false ∧ hexDigit d ≠ 0 ∧ hexDigit d ≠ 10 ∧
      hexDigit d ≠ 43 ∧ hexDigit d ≠ 45 ∧ hexDigit d ≠ 120 ∧ hexDigit d ≠ 88 := by decide
  exact hall ⟨d, hd⟩

lemma mem_printHex {n : ℕ} {c : UInt8} (hc : c ∈ printHex n) : ∃ d < 16, c = hexDigit d := by
  rw [printHex_eq] at hc
  obtain ⟨d, hd, rfl⟩ := List.mem_map.mp hc
  exact ⟨d, lt_of_mem_printDigits hd, rfl⟩

/-- A printed number is read back, up to the space that ends it. -/
lemma scanHex_printHex (n : UInt64) (l : Bytes) :
    scanHex (printHex n.toNat ++ 32 :: l) = some (n, 32 :: l) := by
  have hscan : scanDigits 0 (printHex n.toNat ++ 32 :: l) = (n.toNat, 32 :: l) := by
    rw [printHex_eq, scanDigits_map_hexDigit (fun d hd => lt_of_mem_printDigits hd)
      (by simp; decide), foldl_printDigits]
  obtain ⟨c, ds, hprint⟩ : ∃ c ds, printHex n.toNat = c :: ds := by
    refine List.exists_cons_of_ne_nil ?_
    rw [printHex_eq]
    simpa using printDigits_ne_nil n.toNat
  obtain ⟨d, hd, rfl⟩ := mem_printHex (hprint ▸ List.mem_cons_self : c ∈ printHex n.toNat)
  obtain ⟨hspace, -, -, hplus, hminus, -⟩ := hexDigit_ne hd
  have hx : ∀ x ∈ (ds ++ 32 :: l).head?, x ≠ 120 ∧ x ≠ 88 := by
    intro x hx
    cases ds with
    | nil =>
      obtain rfl : x = 32 := by simpa using hx.symm
      decide
    | cons e ds =>
      obtain rfl : e = x := by simpa using hx
      obtain ⟨d', hd', rfl⟩ := mem_printHex (n := n.toNat) (c := e) (by simp [hprint])
      exact ⟨(hexDigit_ne hd').2.2.2.2.2.1, (hexDigit_ne hd').2.2.2.2.2.2⟩
  rw [hprint, List.cons_append] at hscan ⊢
  have hunsigned : scanUnsigned (hexDigit d :: (ds ++ 32 :: l)) = some (n.toNat, 32 :: l) := by
    have hprefix : ¬ (hexDigit d = 48 ∧
        ((ds ++ 32 :: l).head? = some 120 ∨ (ds ++ 32 :: l).head? = some 88)) := by
      rintro ⟨-, h | h⟩
      · exact (hx 120 h).1 rfl
      · exact (hx 88 h).2 rfl
    rw [scanUnsigned, if_neg (by simp [hexVal_hexDigit hd]), if_neg hprefix, hscan]
  have hvalue : toU64 false n.toNat = n := by
    rw [toU64, if_neg (Nat.not_le_of_lt n.toNat_lt)]
    simp
  simp [scanHex, hspace, hplus, hminus, hunsigned, hvalue]

lemma scanHex_space (l : Bytes) : scanHex (32 :: l) = scanHex l := by
  simp [scanHex, show isspace 32 = true from rfl]

/-! ### Decimal numbers -/

def isDigit (c : UInt8) : Bool := 48 ≤ c && c ≤ 57

/-- The number that decimal digits stand for. -/
def decVal (ds : Bytes) : ℕ := ds.foldl (fun a d => a * 10 + (d.toNat - 48)) 0

/-- `strtoul` with base 10: the number and what follows it, if there are digits. -/
def strtoul (s : Bytes) : Option (UInt64 × Bytes) :=
  let s := s.dropWhile isspace
  let neg := s.head? = some 45
  let s := if neg ∨ s.head? = some 43 then s.tail else s
  if (s.takeWhile isDigit).isEmpty then none
  else some (toU64 neg (decVal (s.takeWhile isDigit)), s.dropWhile isDigit)

/-- White space, a sign or none, and the digits `ds`. -/
def Numeral (s : Bytes) (neg : Bool) (ds : Bytes) : Prop :=
  (ds ≠ [] ∧ ∀ c ∈ ds, isDigit c = true) ∧
    ∃ space sign, s = space ++ (sign ++ ds) ∧ (∀ c ∈ space, isspace c = true) ∧
      if neg then sign = [45] else sign = [] ∨ sign = [43]

lemma isspace_eq_false_of_isDigit {c : UInt8} (h : isDigit c = true) : isspace c = false := by
  have hall : ∀ n : Fin 256, isDigit (UInt8.ofNat n) = true → isspace (UInt8.ofNat n) = false := by
    decide +kernel
  have hc := hall ⟨c.toNat, c.toNat_lt⟩
  rw [UInt8.ofNat_toNat] at hc
  exact hc h

lemma head_of_digits {ds : Bytes} (hne : ds ≠ []) (hds : ∀ c ∈ ds, isDigit c = true) :
    (∀ c ∈ ds.head?, isspace c = false) ∧ ds.head? ≠ some 45 ∧ ds.head? ≠ some 43 := by
  obtain ⟨d, ds, rfl⟩ := List.exists_cons_of_ne_nil hne
  have hd := hds d List.mem_cons_self
  refine ⟨fun c hc => ?_, ?_, ?_⟩
  · cases hc
    exact isspace_eq_false_of_isDigit hd
  · rintro hc
    cases hc
    exact absurd hd (by decide)
  · rintro hc
    cases hc
    exact absurd hd (by decide)

lemma dropWhile_space_append {space s : Bytes} (hspace : ∀ c ∈ space, isspace c = true)
    (hs : ∀ c ∈ s.head?, isspace c = false) : (space ++ s).dropWhile isspace = s := by
  rw [List.dropWhile_append_of_pos hspace]
  cases s with
  | nil => rfl
  | cons c s => rw [List.dropWhile_cons_of_neg (by simp [hs c rfl])]

lemma digits_of_eq_some (neg : Bool) {l : Bytes} {v : UInt64}
    (h : (if (l.takeWhile isDigit).isEmpty then none
      else some (toU64 neg (decVal (l.takeWhile isDigit)), l.dropWhile isDigit)) = some (v, [])) :
    (l ≠ [] ∧ ∀ c ∈ l, isDigit c = true) ∧ v = toU64 neg (decVal l) := by
  split_ifs at h with hempty
  obtain ⟨rfl, hrest⟩ := Prod.mk.inj (Option.some.inj h)
  have hall : l.takeWhile isDigit = l := by
    have := List.takeWhile_append_dropWhile (p := isDigit) (l := l)
    rwa [hrest, List.append_nil] at this
  rw [hall] at hempty ⊢
  exact ⟨⟨by simpa using hempty, List.takeWhile_eq_self_iff.mp hall⟩, rfl⟩

/-- `strtoul` takes the whole text exactly if it is a numeral. -/
lemma strtoul_eq_some {s : Bytes} {v : UInt64} :
    strtoul s = some (v, []) ↔ ∃ neg ds, Numeral s neg ds ∧ v = toU64 neg (decVal ds) := by
  constructor
  · intro hs
    obtain ⟨rest, hrest⟩ : ∃ rest, rest = s.dropWhile isspace := ⟨_, rfl⟩
    have hcut : s = s.takeWhile isspace ++ rest := by
      rw [hrest, List.takeWhile_append_dropWhile]
    have hspace : ∀ c ∈ s.takeWhile isspace, isspace c = true := fun c hc =>
      List.mem_takeWhile_imp hc
    simp only [strtoul, ← hrest] at hs
    by_cases hminus : rest.head? = some 45
    · obtain ⟨ds, rfl⟩ : ∃ ds, rest = 45 :: ds := List.head?_eq_some_iff.mp hminus
      obtain ⟨hds, hv⟩ := digits_of_eq_some true (by simpa using hs)
      exact ⟨true, ds, ⟨hds, _, [45], hcut, hspace, rfl⟩, hv⟩
    by_cases hplus : rest.head? = some 43
    · obtain ⟨ds, rfl⟩ : ∃ ds, rest = 43 :: ds := List.head?_eq_some_iff.mp hplus
      obtain ⟨hds, hv⟩ := digits_of_eq_some false (by simpa using hs)
      exact ⟨false, ds, ⟨hds, _, [43], hcut, hspace, Or.inr rfl⟩, hv⟩
    · obtain ⟨hds, hv⟩ := digits_of_eq_some false (by simpa [hminus, hplus] using hs)
      exact ⟨false, rest, ⟨hds, _, [], hcut, hspace, Or.inl rfl⟩, hv⟩
  · rintro ⟨neg, ds, ⟨⟨hne, hds⟩, space, sign, rfl, hspace, hsign⟩, rfl⟩
    obtain ⟨hhead, hminus, hplus⟩ := head_of_digits hne hds
    have hall : ds.takeWhile isDigit = ds := List.takeWhile_eq_self_iff.mpr hds
    have hrest : ds.dropWhile isDigit = [] := List.dropWhile_eq_nil_iff.mpr hds
    have hskip : (space ++ (sign ++ ds)).dropWhile isspace = sign ++ ds := by
      refine dropWhile_space_append hspace ?_
      cases neg with
      | true =>
        rw [show sign = [45] from hsign]
        intro c hc
        cases hc
        rfl
      | false =>
        rcases (show sign = [] ∨ sign = [43] from hsign) with rfl | rfl
        · exact hhead
        · intro c hc
          cases hc
          rfl
    simp only [strtoul, hskip]
    cases neg with
    | true =>
      rw [show sign = [45] from hsign]
      simp [hall, hrest, hne]
    | false =>
      rcases (show sign = [] ∨ sign = [43] from hsign) with rfl | rfl
      · simp [hall, hrest, hne, hminus, hplus]
      · simp [hall, hrest, hne]

/-! ### Searching for a byte -/

/-- `strchr`: what stands before and after the first occurrence. -/
def strchr (c : UInt8) : Bytes → Option (Bytes × Bytes)
  | [] => none
  | b :: s => if b = c then some ([], s) else (strchr c s).map fun p => (b :: p.1, p.2)

/-- `strrchr`: what stands before and after the last occurrence. -/
def strrchr (c : UInt8) : Bytes → Option (Bytes × Bytes)
  | [] => none
  | b :: s =>
    match strrchr c s with
    | some p => some (b :: p.1, p.2)
    | none => if b = c then some ([], s) else none

lemma strchr_eq_none {c : UInt8} {s : Bytes} : strchr c s = none ↔ c ∉ s := by
  induction s with
  | nil => simp [strchr]
  | cons b s ih =>
    rw [strchr, List.mem_cons, not_or, ← ih]
    by_cases hb : b = c
    · simp [hb]
    · simp [hb, Ne.symm hb]

lemma strchr_append {c : UInt8} {a b : Bytes} (h : c ∉ a) :
    strchr c (a ++ c :: b) = some (a, b) := by
  induction a with
  | nil => simp [strchr]
  | cons x a ih =>
    rw [List.mem_cons, not_or] at h
    rw [List.cons_append, strchr, if_neg (Ne.symm h.1), ih h.2]
    rfl

lemma strchr_eq_some {c : UInt8} {s a b : Bytes} :
    strchr c s = some (a, b) ↔ s = a ++ c :: b ∧ c ∉ a := by
  constructor
  · intro h
    have hmem : c ∈ s := by
      by_contra hnot
      rw [strchr_eq_none.mpr hnot] at h
      cases h
    obtain ⟨a', b', rfl, ha'⟩ := List.eq_append_cons_of_mem hmem
    rw [strchr_append ha'] at h
    cases h
    exact ⟨rfl, ha'⟩
  · rintro ⟨rfl, ha⟩
    exact strchr_append ha

lemma strrchr_eq_none {c : UInt8} {s : Bytes} : strrchr c s = none ↔ c ∉ s := by
  induction s with
  | nil => simp [strrchr]
  | cons b s ih =>
    rw [strrchr, List.mem_cons, not_or, ← ih]
    cases strrchr c s with
    | none =>
      by_cases hb : b = c
      · simp [hb]
      · simp [hb, Ne.symm hb]
    | some p => simp

lemma strrchr_append {c : UInt8} {a b : Bytes} (h : c ∉ b) :
    strrchr c (a ++ c :: b) = some (a, b) := by
  induction a with
  | nil => simp [strrchr, strrchr_eq_none.mpr h]
  | cons x a ih => rw [List.cons_append, strrchr, ih]

lemma strrchr_eq_some {c : UInt8} {s a b : Bytes} :
    strrchr c s = some (a, b) ↔ s = a ++ c :: b ∧ c ∉ b := by
  constructor
  · intro h
    induction s generalizing a with
    | nil => cases h
    | cons x s ih =>
      rw [strrchr] at h
      cases hs : strrchr c s with
      | none =>
        rw [hs] at h
        split_ifs at h with hx
        cases h
        exact ⟨by rw [hx]; rfl, strrchr_eq_none.mp hs⟩
      | some p =>
        rw [hs] at h
        cases h
        obtain ⟨rfl, hb⟩ := ih hs
        exact ⟨rfl, hb⟩
  · rintro ⟨rfl, hb⟩
    exact strrchr_append hb

/-! ### Searching for a text -/

/-- `memmem`: the text from the first occurrence on. -/
def memmem (needle s : Bytes) : Option Bytes := s.tails.find? needle.isPrefixOf

lemma memmem_cons {needle s : Bytes} (c : UInt8) :
    memmem needle (c :: s) = if needle <+: c :: s then some (c :: s) else memmem needle s := by
  rw [memmem, List.tails_cons, List.find?_cons]
  simp only [← List.isPrefixOf_iff_prefix]
  cases needle.isPrefixOf (c :: s) <;> rfl

lemma memmem_suffix {needle s hit : Bytes} (h : memmem needle s = some hit) : hit <:+ s :=
  (List.mem_tails _ _).mp (List.mem_of_find?_eq_some h)

end CText
