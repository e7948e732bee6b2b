import Anticheat.Lib.CText

/-!
# Reading from buffers

A reader of binary data either refuses it or reads what stands in its buffers; an access outside of
a buffer is a fault. Each operation has an equation that says what it reads, as long as the bounds
it is given are right.
-/

namespace Buffer

open CText (Bytes)

/-- Why a reader stops. -/
inductive Stop where
  | refuse
  | fault
  deriving DecidableEq, Repr

abbrev Read := Except Stop

@[simp] lemma ok_bind {α β : Type} (a : α) (f : α → Read β) : (Except.ok a >>= f) = f a := rfl

/-- Go on only under a condition. -/
def require (b : Bool) : Read Unit := if b then .ok () else .error .refuse

/-! ### Readers that do not fault -/

/-- The reader does not fault, and what it returns satisfies `P`. -/
def Safe {α : Type} (x : Read α) (P : α → Prop) : Prop :=
  match x with
  | .ok a => P a
  | .error .refuse => True
  | .error .fault => False

section

variable {α β : Type} {x : Read α} {f : α → Read β} {P P' : α → Prop} {Q : β → Prop}

lemma Safe.bind (h : Safe x P) (hf : ∀ a, P a → Safe (f a) Q) : Safe (x >>= f) Q := by
  match x, h with
  | .ok a, h => exact hf a h
  | .error .refuse, _ => trivial

lemma Safe.map {g : α → β} (h : Safe x P) (hg : ∀ a, P a → Q (g a)) : Safe (x.map g) Q := by
  match x, h with
  | .ok a, h => exact hg a h
  | .error .refuse, _ => trivial

lemma Safe.mono (h : Safe x P) (hP : ∀ a, P a → P' a) : Safe x P' := by
  match x, h with
  | .ok a, h => exact hP a h
  | .error .refuse, _ => trivial

lemma Safe.ne_fault (h : Safe x P) : x ≠ .error .fault := by
  rintro rfl
  exact h

lemma Safe.of_toOption (h : Safe x P) {a : α} (ha : x.toOption = some a) : P a := by
  match x, h, ha with
  | .ok _, h, rfl => exact h

lemma safe_require {b : Bool} : Safe (require b) fun _ => b = true := by
  cases b
  · trivial
  · rfl

end

/-! ### Accesses -/

/-- `n` bytes from an offset on. -/
def slice (buf : Bytes) (off n : ℕ) : Read Bytes :=
  if off + n ≤ buf.length then .ok ((buf.drop off).take n) else .error .fault

/-- One byte. -/
def byteAt (buf : Bytes) (off : ℕ) : Read UInt8 :=
  match buf[off]? with
  | some b => .ok b
  | none => .error .fault

/-! ### Tables -/

/-- The number that bytes stand for, the lowest one first. -/
def le : Bytes → ℕ
  | [] => 0
  | b :: bs => b.toNat + 256 * le bs

/-- A field of `w` bytes in a record. -/
def field (bs : Bytes) (off w : ℕ) : UInt64 := UInt64.ofNat (le ((bs.drop off).take w))

/-- Record `i` of a table of records of `w` bytes. -/
def row {α : Type} (decode : Bytes → α) (w : ℕ) (buf : Bytes) (i : ℕ) : Read α :=
  (slice buf (i * w) w).map decode

/-- The first `n` records of a table. -/
def rows {α : Type} (decode : Bytes → α) (w n : ℕ) (buf : Bytes) : List α :=
  (List.range n).map fun i => decode ((buf.drop (i * w)).take w)

lemma row_eq {α : Type} (decode : Bytes → α) {w i : ℕ} {buf : Bytes}
    (h : (i + 1) * w ≤ buf.length) :
    row decode w buf i = .ok (decode ((buf.drop (i * w)).take w)) := by
  rw [row, slice, if_pos (by rwa [Nat.succ_mul] at h)]
  rfl

/-! ### Strings -/

/-- `memchr(buf + off, 0, n) != NULL` -/
def memchr (buf : Bytes) (off : ℕ) : ℕ → Read Bool
  | 0 => .ok false
  | n + 1 => do
    let c ← byteAt buf off
    if c = 0 then .ok true else memchr buf (off + 1) n

/-- `strcmp(buf + off, s) == 0`, where a NUL ends `s` if it has one. -/
def strcmp (buf : Bytes) (off : ℕ) : Bytes → Read Bool
  | [] => do
    let c ← byteAt buf off
    .ok (c = 0)
  | b :: s => do
    let c ← byteAt buf off
    if c ≠ b then .ok false
    else if c = 0 then .ok true
    else strcmp buf (off + 1) s

/-- The string at an offset, if a NUL ends it within the buffer. -/
def cstr (buf : Bytes) (off : ℕ) : Option Bytes :=
  if 0 ∈ buf.drop off then some ((buf.drop off).takeWhile (· ≠ 0)) else none

variable {buf : Bytes} {off : ℕ}

lemma byteAt_eq {c : UInt8} {rest : Bytes} (h : buf.drop off = c :: rest) :
    byteAt buf off = .ok c ∧ buf.drop (off + 1) = rest := by
  have hget : buf[off]? = some c := by rw [← List.head?_drop, h]; rfl
  have hdrop : buf.drop (off + 1) = rest := by rw [← List.drop_drop, h]; rfl
  exact ⟨by rw [byteAt, hget], hdrop⟩

lemma memchr_eq {n : ℕ} (h : off + n ≤ buf.length) :
    memchr buf off n = .ok (decide (0 ∈ (buf.drop off).take n)) := by
  induction n generalizing off with
  | zero => rfl
  | succ n ih =>
    cases hbuf : buf.drop off with
    | nil =>
      have hle := List.drop_eq_nil_iff.mp hbuf
      omega
    | cons c rest =>
      obtain ⟨hbyte, hrest⟩ := byteAt_eq hbuf
      have htail := ih (show off + 1 + n ≤ buf.length by omega)
      rw [hrest] at htail
      rw [memchr, hbyte, List.take_succ_cons, ok_bind, htail]
      by_cases hc : c = 0
      · simp [hc]
      · simp [hc, Ne.symm hc]

lemma cstr_eq_cons {c : UInt8} {rest : Bytes} (h : buf.drop off = c :: rest) :
    cstr buf off = if c = 0 then some [] else (cstr buf (off + 1)).map (c :: ·) := by
  rw [cstr, cstr, (byteAt_eq h).2, h]
  by_cases hc : c = 0
  · simp [hc]
  · by_cases h0 : 0 ∈ rest
    · simp [hc, h0]
    · simp [hc, h0, Ne.symm hc]

/-- As long as a NUL ends the string in the buffer, the comparison stays in it. -/
lemma strcmp_eq (s : Bytes) (h : 0 ∈ buf.drop off) :
    strcmp buf off s = .ok (decide (cstr buf off = some (s.takeWhile (· ≠ 0)))) := by
  induction s generalizing off with
  | nil =>
    obtain ⟨c, rest, hbuf⟩ := List.exists_cons_of_ne_nil (List.ne_nil_of_mem h)
    rw [strcmp, (byteAt_eq hbuf).1, ok_bind, cstr_eq_cons hbuf]
    by_cases hc : c = 0
    · simp [hc]
    · simp [hc]
  | cons b s ih =>
    obtain ⟨c, rest, hbuf⟩ := List.exists_cons_of_ne_nil (List.ne_nil_of_mem h)
    rw [strcmp, (byteAt_eq hbuf).1, ok_bind, cstr_eq_cons hbuf]
    by_cases hcb : c = b
    · subst hcb
      by_cases hc : c = 0
      · simp [hc]
      · have hrest : 0 ∈ buf.drop (off + 1) := by
          rw [(byteAt_eq hbuf).2]
          rw [hbuf] at h
          exact (List.mem_cons.mp h).resolve_left (Ne.symm hc)
        rw [ih hrest]
        simp [hc]
    · have hne : (if c = 0 then some [] else (cstr buf (off + 1)).map (c :: ·)) ≠
          some ((b :: s).takeWhile (· ≠ 0)) := by
        by_cases hc : c = 0
        · have hb : b ≠ 0 := fun hb => hcb (hc.trans hb.symm)
          simp [hc, hb]
        · by_cases hb : b = 0
          · simp [hc, hb]
          · simp [hc, hb, hcb]
      rw [if_pos hcb, decide_eq_false hne]

end Buffer
