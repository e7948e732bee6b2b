import Mathlib.Algebra.Order.Ring.Int
import Mathlib.Data.Nat.Log
import Mathlib.Order.Basic
import Mathlib.Tactic.Common

/-!
# Rounding to a number of significant bits

The numbers of a binary floating-point format, without its largest exponent, as multiples of the
smallest one. A difference is rounded to the nearest such number, to the even one of two. Rounding
is monotone, and so is the subtraction on both sides.
-/

namespace Rounding

variable {k p n m : ℕ}

/-! ### Multiples of a power of two -/

/-- The multiple of `2 ^ k` that is nearest to `n`, the even one of two. -/
def nearest (k n : ℕ) : ℕ :=
  if 2 * (n % 2 ^ k) < 2 ^ k ∨ 2 * (n % 2 ^ k) = 2 ^ k ∧ n / 2 ^ k % 2 = 0 then n / 2 ^ k
  else n / 2 ^ k + 1

lemma div_le_nearest : n / 2 ^ k ≤ nearest k n := by
  rw [nearest]
  split_ifs
  · exact le_rfl
  · exact Nat.le_succ _

lemma nearest_le : nearest k n ≤ n / 2 ^ k + 1 := by
  rw [nearest]
  split_ifs
  · exact Nat.le_succ _
  · exact le_rfl

lemma nearest_mono (h : n ≤ m) : nearest k n ≤ nearest k m := by
  rcases (Nat.div_le_div_right (c := 2 ^ k) h).lt_or_eq with hlt | heq
  · exact nearest_le.trans ((Nat.succ_le_of_lt hlt).trans div_le_nearest)
  · -- in one interval, the remainders decide
    have hn := Nat.div_add_mod n (2 ^ k)
    have hm := Nat.div_add_mod m (2 ^ k)
    rw [heq] at hn
    rw [nearest, nearest, heq]
    split_ifs with hdown hdown'
    · exact le_rfl
    · exact Nat.le_succ _
    · omega
    · exact le_rfl

lemma nearest_mul (c : ℕ) : nearest k (c * 2 ^ k) = c := by
  rw [nearest, Nat.mul_mod_left, Nat.mul_div_cancel c (Nat.two_pow_pos k)]
  exact if_pos (Or.inl (Nat.two_pow_pos k))

/-! ### Significant bits -/

/-- How many bits `n` has in excess of `p`. -/
def excess (p n : ℕ) : ℕ := n.log2 + 1 - p

/-- `n` with `p` significant bits. -/
def round (p n : ℕ) : ℕ := nearest (excess p n) n * 2 ^ excess p n

lemma round_of_excess (h : excess p n = 0) : round p n = n := by
  rw [round, h, Nat.pow_zero, Nat.mul_one]
  simpa using nearest_mul (k := 0) n

lemma pow_log2_succ (h : 0 < excess p n) : 2 ^ (n.log2 + 1) = 2 ^ p * 2 ^ excess p n := by
  rw [← Nat.pow_add, excess]
  rw [excess] at h
  congr 1
  omega

lemma nearest_excess_le : nearest (excess p n) n ≤ 2 ^ p := by
  rcases Nat.eq_zero_or_pos (excess p n) with h | h
  · have hn : nearest (excess p n) n = n := by
      rw [h]
      simpa using nearest_mul (k := 0) n
    rw [hn]
    refine Nat.lt_log2_self.le.trans (Nat.pow_le_pow_right Nat.two_pos ?_)
    rw [excess] at h
    omega
  · have hle := nearest_mono (k := excess p n) (n := n) Nat.lt_log2_self.le
    rwa [pow_log2_succ h, nearest_mul] at hle

lemma round_le_pow : round p n ≤ 2 ^ (n.log2 + 1) := by
  rcases Nat.eq_zero_or_pos (excess p n) with h | h
  · rw [round_of_excess h]
    exact Nat.lt_log2_self.le
  · rw [pow_log2_succ h]
    exact Nat.mul_le_mul_right _ nearest_excess_le

lemma pow_le_round (hp : 0 < p) (hn : n ≠ 0) : 2 ^ n.log2 ≤ round p n := by
  rcases Nat.eq_zero_or_pos (excess p n) with h | h
  · rw [round_of_excess h]
    exact Nat.log2_self_le hn
  · have hsplit : 2 ^ n.log2 = 2 ^ (p - 1) * 2 ^ excess p n := by
      rw [← Nat.pow_add, excess]
      congr 1
      rw [excess] at h
      omega
    have hle : nearest (excess p n) (2 ^ n.log2) ≤ nearest (excess p n) n :=
      nearest_mono (Nat.log2_self_le hn)
    rw [hsplit, nearest_mul] at hle
    rw [round, hsplit]
    exact Nat.mul_le_mul_right _ hle

lemma round_zero : round p 0 = 0 := by
  simp [round, nearest]

lemma round_mono (hp : 0 < p) (h : n ≤ m) : round p n ≤ round p m := by
  rcases Nat.eq_zero_or_pos n with rfl | hn
  · rw [round_zero]
    exact Nat.zero_le _
  have hlog : n.log2 ≤ m.log2 := (Nat.le_log2 (by omega)).mpr ((Nat.log2_self_le hn.ne').trans h)
  rcases hlog.lt_or_eq with hlt | heq
  · -- there is a power of two between the two
    calc round p n ≤ 2 ^ (n.log2 + 1) := round_le_pow
      _ ≤ 2 ^ m.log2 := Nat.pow_le_pow_right Nat.two_pos hlt
      _ ≤ round p m := pow_le_round hp (by omega)
  · have hexcess : excess p n = excess p m := by rw [excess, excess, heq]
    rw [round, round, hexcess]
    exact Nat.mul_le_mul_right _ (nearest_mono h)

/-! ### Numbers -/

/-- Rounding keeps the sign. -/
def roundInt (p : ℕ) : ℤ → ℤ
  | .ofNat n => round p n
  | .negSucc n => -round p (n + 1)

lemma roundInt_mono (hp : 0 < p) {y z : ℤ} (h : y ≤ z) : roundInt p y ≤ roundInt p z := by
  cases y with
  | ofNat n =>
    obtain ⟨m, rfl⟩ := Int.eq_ofNat_of_zero_le ((Int.natCast_nonneg n).trans h)
    exact Int.ofNat_le.mpr (round_mono hp (Int.ofNat_le.mp h))
  | negSucc n =>
    cases z with
    | ofNat m =>
      exact (Int.neg_nonpos_of_nonneg (Int.natCast_nonneg _)).trans (Int.natCast_nonneg _)
    | negSucc m =>
      have hle : m + 1 ≤ n + 1 := by omega
      exact Int.neg_le_neg (Int.ofNat_le.mpr (round_mono hp hle))

/-- A number that `p` bits and an exponent can say. -/
def IsShort (p : ℕ) (z : ℤ) : Prop := ∃ c k, c ≤ 2 ^ p ∧ z.natAbs = c * 2 ^ k

lemma isShort_roundInt (p : ℕ) (z : ℤ) : IsShort p (roundInt p z) := by
  cases z with
  | ofNat n => exact ⟨_, _, nearest_excess_le, rfl⟩
  | negSucc n => exact ⟨_, _, nearest_excess_le, Int.natAbs_neg _⟩

/-- A number of the format, in units of the smallest one. -/
structure Number (p : ℕ) where
  val : ℤ
  short : IsShort p val

namespace Number

lemma val_injective : Function.Injective (val (p := p)) := by
  rintro ⟨y, hy⟩ ⟨z, hz⟩ rfl
  rfl

instance instLinearOrder : LinearOrder (Number p) := LinearOrder.lift' val val_injective

instance instSub : Sub (Number p) :=
  ⟨fun a b => ⟨roundInt p (a.val - b.val), isShort_roundInt p _⟩⟩

lemma sub_le_sub_right (hp : 0 < p) {a b : Number p} (c : Number p) (h : a ≤ b) :
    a - c ≤ b - c :=
  roundInt_mono hp (Int.sub_le_sub_right h c.val)

lemma sub_le_sub_left (hp : 0 < p) (a : Number p) {b c : Number p} (h : b ≤ c) :
    a - c ≤ a - b :=
  roundInt_mono hp (Int.sub_le_sub_left h a.val)

end Number

end Rounding
