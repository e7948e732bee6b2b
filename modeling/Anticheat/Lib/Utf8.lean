import Mathlib.Tactic.Common
import Mathlib.Tactic.Ring

/-!
# Decoding UTF-8 with replacement

The decoder takes one byte at a time. Between characters it has nothing pending; inside one it
knows how many bytes it still wants, the range of the next one and the code point so far. A byte
outside of the range ends the character there: what was read of it is replaced by U+FFFD, and the
byte starts a new one.
-/

namespace Utf8

/-- A code point beyond ASCII that is not a surrogate. -/
def Wide (c : ℕ) : Prop := 0x80 ≤ c ∧ c < 0x110000 ∧ ¬ (0xD800 ≤ c ∧ c ≤ 0xDFFF)

instance (c : ℕ) : Decidable (Wide c) := inferInstanceAs (Decidable (_ ∧ _))

/-- A character of which `more` bytes are wanted after the next one, which is to be between `lo` and
`hi`; `acc` is the code point so far. However it is completed, its code point is a wide one. -/
structure Pending where
  more : ℕ
  lo : UInt8
  hi : UInt8
  acc : ℕ
  lo_le : 0x80 ≤ lo.toNat
  hi_le : hi.toNat ≤ 0xBF
  wide : ∀ c, (acc * 64 + (lo.toNat - 0x80)) * 64 ^ more ≤ c →
    c < (acc * 64 + (hi.toNat - 0x80) + 1) * 64 ^ more → Wide c
  deriving DecidableEq

/-- U+FFFD -/
def replacement : ℕ := 0xFFFD

/-- A first byte of a character of two bytes. -/
def lead2 (b : UInt8) (h : 0xC2 ≤ b.toNat ∧ b.toNat < 0xE0) : Pending where
  more := 0
  lo := 0x80
  hi := 0xBF
  acc := b.toNat - 0xC0
  lo_le := by decide
  hi_le := by decide
  wide := by
    intro c hlo hhi
    simp only [UInt8.reduceToNat, Nat.pow_zero] at hlo hhi
    unfold Wide
    omega

/-- A first byte of a character of three bytes. -/
def lead3 (b : UInt8) (h : 0xE0 ≤ b.toNat ∧ b.toNat < 0xF0) : Pending where
  more := 1
  lo := if b.toNat = 0xE0 then 0xA0 else 0x80
  hi := if b.toNat = 0xED then 0x9F else 0xBF
  acc := b.toNat - 0xE0
  lo_le := by split <;> decide
  hi_le := by split <;> decide
  wide := by
    intro c hlo hhi
    unfold Wide
    split at hlo <;> split at hhi <;>
      simp only [UInt8.reduceToNat, Nat.pow_one] at hlo hhi <;> omega

/-- A first byte of a character of four bytes. -/
def lead4 (b : UInt8) (h : 0xF0 ≤ b.toNat ∧ b.toNat < 0xF5) : Pending where
  more := 2
  lo := if b.toNat = 0xF0 then 0x90 else 0x80
  hi := if b.toNat = 0xF4 then 0x8F else 0xBF
  acc := b.toNat - 0xF0
  lo_le := by split <;> decide
  hi_le := by split <;> decide
  wide := by
    intro c hlo hhi
    unfold Wide
    split at hlo <;> split at hhi <;> simp only [UInt8.reduceToNat, Nat.reducePow] at hlo hhi <;>
      omega

/-- A byte between characters: what it yields, and the character that it starts. -/
def start (b : UInt8) : List ℕ × Option Pending :=
  if b.toNat < 0x80 then ([b.toNat], none)
  else if h : 0xC2 ≤ b.toNat ∧ b.toNat < 0xE0 then ([], some (lead2 b h))
  else if h : 0xE0 ≤ b.toNat ∧ b.toNat < 0xF0 then ([], some (lead3 b h))
  else if h : 0xF0 ≤ b.toNat ∧ b.toNat < 0xF5 then ([], some (lead4 b h))
  else ([replacement], none)

namespace Pending

variable (p : Pending) (b : UInt8)

/-- The byte continues the character. -/
def Continues : Prop := p.lo ≤ b ∧ b ≤ p.hi

instance : Decidable (p.Continues b) := inferInstanceAs (Decidable (_ ∧ _))

/-- The code point with the byte added. -/
def push : ℕ := p.acc * 64 + (b.toNat - 0x80)

variable {p b}

lemma le_push (h : p.Continues b) : p.acc * 64 + (p.lo.toNat - 0x80) ≤ p.push b := by
  have := UInt8.le_iff_toNat_le.mp h.1
  unfold push
  omega

lemma push_le (h : p.Continues b) : p.push b ≤ p.acc * 64 + (p.hi.toNat - 0x80) := by
  have := UInt8.le_iff_toNat_le.mp h.2
  unfold push
  omega

/-- The character after a byte that continues it, with `n` more bytes after the next. -/
def next {n : ℕ} (hmore : p.more = n + 1) (h : p.Continues b) : Pending where
  more := n
  lo := 0x80
  hi := 0xBF
  acc := p.push b
  lo_le := by decide
  hi_le := by decide
  wide := by
    intro c hlo hhi
    have hle := le_push h
    have hge := push_le h
    simp only [UInt8.reduceToNat, Nat.sub_self, Nat.add_zero] at hlo hhi
    refine p.wide c ?_ ?_
    · calc (p.acc * 64 + (p.lo.toNat - 0x80)) * 64 ^ p.more
          ≤ p.push b * 64 ^ (n + 1) := by rw [hmore]; exact Nat.mul_le_mul_right _ hle
        _ = p.push b * 64 * 64 ^ n := by rw [pow_succ]; ring
        _ ≤ c := hlo
    · calc c < (p.push b * 64 + 64) * 64 ^ n := hhi
        _ = (p.push b + 1) * 64 ^ (n + 1) := by rw [pow_succ]; ring
        _ ≤ (p.acc * 64 + (p.hi.toNat - 0x80) + 1) * 64 ^ p.more := by
          rw [hmore]
          exact Nat.mul_le_mul_right _ (Nat.succ_le_succ hge)

lemma wide_push (hmore : p.more = 0) (h : p.Continues b) : Wide (p.push b) := by
  refine p.wide _ ?_ ?_
  · simpa [hmore] using le_push h
  · simpa [hmore] using Nat.lt_succ_of_le (push_le h)

end Pending

/-- One byte: what it yields, and what is pending after it. -/
def step : Option Pending → UInt8 → List ℕ × Option Pending
  | none, b => start b
  | some p, b =>
    if h : p.Continues b then
      match hmore : p.more with
      | 0 => ([p.push b], none)
      | _ + 1 => ([], some (Pending.next hmore h))
    else (replacement :: (start b).1, (start b).2)

/-- What the end of the text yields. -/
def finish : Option Pending → List ℕ
  | none => []
  | some _ => [replacement]

/-- The text of the bytes, with `q` pending. -/
def decodeFrom (q : Option Pending) : List UInt8 → List ℕ
  | [] => finish q
  | b :: l => (step q b).1 ++ decodeFrom (step q b).2 l

/-- The text of the bytes, each ill-formed part replaced by U+FFFD. -/
def decode (l : List UInt8) : List ℕ := decodeFrom none l

section

variable {q : Option Pending} {b : UInt8} {l l' : List UInt8}

/-- An ASCII byte ends what is pending and stands for itself. -/
lemma step_ascii (hb : b.toNat < 0x80) : step q b = (finish q ++ [b.toNat], none) := by
  cases q with
  | none => simp [step, start, finish, hb]
  | some p =>
    have hno : ¬ p.Continues b := by
      intro h
      have := UInt8.le_iff_toNat_le.mp h.1
      have := p.lo_le
      omega
    simp [step, start, finish, hb, hno]

lemma decodeFrom_ascii (hb : b.toNat < 0x80) :
    decodeFrom q (b :: l) = finish q ++ b.toNat :: decode l := by
  simp [decodeFrom, step_ascii hb, decode]

/-- The text before an ASCII byte does not depend on what follows it. -/
lemma decodeFrom_append_ascii (hb : b.toNat < 0x80) :
    decodeFrom q (l ++ b :: l') = decodeFrom q l ++ b.toNat :: decode l' := by
  induction l generalizing q with
  | nil => exact decodeFrom_ascii hb
  | cons a l ih => simp [decodeFrom, ih]

lemma decode_ascii_append (hl : ∀ b ∈ l, b.toNat < 0x80) :
    decode (l ++ l') = l.map UInt8.toNat ++ decode l' := by
  induction l with
  | nil => rfl
  | cons b l ih =>
    obtain ⟨hb, hl⟩ := List.forall_mem_cons.mp hl
    rw [List.cons_append, decode, decodeFrom_ascii hb, ih hl]
    rfl

lemma decode_ascii (hl : ∀ b ∈ l, b.toNat < 0x80) : decode l = l.map UInt8.toNat := by
  simpa [decode, decodeFrom, finish] using (decode_ascii_append hl : decode (l ++ []) = _)

/-- A byte of a wider character yields wide code points only. -/
lemma wide_of_mem_step (hb : 0x80 ≤ b.toNat) {c : ℕ} (hc : c ∈ (step q b).1) : Wide c := by
  have hrep : Wide replacement := by decide
  have hstart : ∀ c ∈ (start b).1, Wide c := by
    intro c hc
    unfold start at hc
    split_ifs at hc
    · omega
    · simp at hc
    · simp at hc
    · simp at hc
    · rw [List.mem_singleton.mp hc]
      exact hrep
  cases q with
  | none => exact hstart c hc
  | some p =>
    by_cases h : p.Continues b
    · simp only [step, h, ↓reduceDIte] at hc
      split at hc
      · next hmore =>
        rw [List.mem_singleton.mp hc]
        exact p.wide_push hmore h
      · simp at hc
    · simp only [step, h, ↓reduceDIte, List.mem_cons] at hc
      rcases hc with rfl | hc
      · exact hrep
      · exact hstart c hc

/-- No more code points than bytes. -/
lemma length_step : (step q b).1.length + (finish (step q b).2).length ≤ (finish q).length + 1 := by
  have hstart : (start b).1.length + (finish (start b).2).length = 1 := by
    unfold start
    split_ifs <;> rfl
  cases q with
  | none => exact hstart.le
  | some p =>
    by_cases h : p.Continues b
    · simp only [step, h, ↓reduceDIte]
      split <;> simp [finish]
    · simp only [step, h, ↓reduceDIte, List.length_cons]
      have : (finish (some p)).length = 1 := rfl
      omega

lemma length_decodeFrom_le : (decodeFrom q l).length ≤ (finish q).length + l.length := by
  induction l generalizing q with
  | nil => exact Nat.le_refl _
  | cons b l ih =>
    have hstep : (step q b).1.length + (finish (step q b).2).length ≤ (finish q).length + 1 :=
      length_step
    have hrest : (decodeFrom (step q b).2 l).length ≤ _ := ih
    rw [decodeFrom, List.length_append, List.length_cons]
    omega

lemma length_decode_le (l : List UInt8) : (decode l).length ≤ l.length := by
  simpa [finish, decode] using (length_decodeFrom_le : (decodeFrom none l).length ≤ _)

/-- Decoded text has no surrogates. -/
lemma not_surrogate_of_mem_decodeFrom {c : ℕ} (hc : c ∈ decodeFrom q l) :
    ¬ (0xD800 ≤ c ∧ c ≤ 0xDFFF) := by
  have hfinish : ∀ q : Option Pending, ∀ c ∈ finish q, ¬ (0xD800 ≤ c ∧ c ≤ 0xDFFF) := by
    intro q c hc
    cases q with
    | none => cases hc
    | some p =>
      rw [List.mem_singleton.mp hc]
      decide
  induction l generalizing q with
  | nil => exact hfinish q c hc
  | cons b l ih =>
    rcases List.mem_append.mp hc with hc | hc
    · by_cases hb : b.toNat < 0x80
      · rw [step_ascii hb] at hc
        rcases List.mem_append.mp hc with hc | hc
        · exact hfinish q c hc
        · rw [List.mem_singleton.mp hc]
          omega
      · exact (wide_of_mem_step (Nat.le_of_not_lt hb) hc).2.2
    · exact ih hc

end

end Utf8
