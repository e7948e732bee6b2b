import Anticheat.Hash.Sha256
import Anticheat.Lib.Fips180

/-!
# The block function and the standard

`ac_sha256_block` is the compression of FIPS 180-4: the table `K` and the initial words are the
bits of roots that the standard asks for, the array `w` holds its message schedule, and a round is
its step.
-/

namespace Anticheat.Hash

open Fips180 (Word HashValue)

/-- The words as a hash value of the standard. -/
def Words.value (v : Words) : HashValue :=
  ⟨v.a.toBitVec, v.b.toBitVec, v.c.toBitVec, v.d.toBitVec, v.e.toBitVec, v.f.toBitVec,
    v.g.toBitVec, v.h.toBitVec⟩

/-! ### Constants -/

/-- The first 64 primes. -/
def firstPrimes : List ℕ :=
  [2, 3, 5, 7, 11, 13, 17, 19, 23, 29, 31, 37, 41, 43, 47, 53, 59, 61, 67, 71, 73, 79, 83, 89, 97,
    101, 103, 107, 109, 113, 127, 131, 137, 139, 149, 151, 157, 163, 167, 173, 179, 181, 191, 193,
    197, 199, 211, 223, 227, 229, 233, 239, 241, 251, 257, 263, 269, 271, 277, 281, 283, 293, 307,
    311]

lemma map_nth_prime : (List.range 64).map (Nat.nth Nat.Prime) = firstPrimes := by
  have hsieve : (List.range 312).filter (fun p => Nat.Prime p) = firstPrimes := by
    rw [Fips180.filter_prime_range (b := 18) (by decide)]
    decide +kernel
  have hnth := Fips180.map_nth_range Nat.Prime 312
  have hcount : Nat.count Nat.Prime 312 = 64 := by
    have hlen := congrArg List.length (hnth.trans hsieve)
    rwa [List.length_map, List.length_range] at hlen
  rw [← hcount, hnth, hsieve]

/-- The table `K`. -/
lemma map_roundConstant :
    (List.range 64).map Fips180.roundConstant = roundConstants.map UInt32.toBitVec := by
  have hcomp : Fips180.roundConstant = Fips180.rootBits 3 ∘ Nat.nth Nat.Prime := rfl
  rw [hcomp, ← List.map_map, map_nth_prime]
  exact Fips180.map_rootBits (by decide) (by decide) (by decide +kernel)

/-- The words of `ac_sha256_init`. -/
lemma value_init : acSha256Init.stream.state.value = Fips180.initialValue := by
  have hroots : (List.range 8).map (Fips180.rootBits 2 ∘ Nat.nth Nat.Prime) =
      acSha256Init.stream.state.value.toList := by
    rw [show List.range 8 = (List.range 64).take 8 from rfl, ← List.map_map, List.map_take,
      map_nth_prime]
    exact Fips180.map_rootBits (by decide) (by decide) (by decide +kernel)
  have hlist : (List.range 8).map (Fips180.rootBits 2 ∘ Nat.nth Nat.Prime) =
      Fips180.initialValue.toList := rfl
  rw [hlist] at hroots
  simp only [HashValue.toList, List.cons.injEq, and_true] at hroots
  ext1 <;> simp only [hroots]

/-! ### Words -/

lemma and_31_of_lt {n : UInt32} (hn : n.toNat < 32) : n &&& 31 = n := by
  rw [← UInt32.toNat_inj, UInt32.toNat_and]
  exact (Nat.and_two_pow_sub_one_eq_mod n.toNat 5).trans (Nat.mod_eq_of_lt hn)

lemma toNat_umod_32_of_lt {n : UInt32} (hn : n.toNat < 32) : (n.toBitVec % 32).toNat = n.toNat := by
  rw [BitVec.toNat_umod, UInt32.toNat_toBitVec]
  exact Nat.mod_eq_of_lt hn

/-- The masks of `rotr` only matter where the standard has no rotation. -/
lemma toBitVec_rotr (x : UInt32) {n : UInt32} (hpos : 0 < n.toNat) (hn : n.toNat < 32) :
    (rotr x n).toBitVec = x.toBitVec.rotateRight n.toNat := by
  have hsub : (32 - n).toNat = 32 - n.toNat :=
    UInt32.toNat_sub_of_le _ _ (UInt32.le_iff_toNat_le.mpr hn.le)
  have hsub_lt : (32 - n).toNat < 32 := by omega
  rw [rotr, and_31_of_lt hn, and_31_of_lt hsub_lt, UInt32.toBitVec_or, UInt32.toBitVec_shiftRight,
    UInt32.toBitVec_shiftLeft, BitVec.ushiftRight_eq', BitVec.shiftLeft_eq',
    toNat_umod_32_of_lt hn, toNat_umod_32_of_lt hsub_lt, hsub, BitVec.rotateRight_def,
    Nat.mod_eq_of_lt hn]

@[simp] lemma toBitVec_sigma0 (x : UInt32) :
    (rotr x 7 ^^^ rotr x 18 ^^^ (x >>> 3)).toBitVec = Fips180.smallSigma0 x.toBitVec := by
  simp [toBitVec_rotr, Fips180.smallSigma0]

@[simp] lemma toBitVec_sigma1 (x : UInt32) :
    (rotr x 17 ^^^ rotr x 19 ^^^ (x >>> 10)).toBitVec = Fips180.smallSigma1 x.toBitVec := by
  simp [toBitVec_rotr, Fips180.smallSigma1]

@[simp] lemma toBitVec_bigSigma0 (x : UInt32) :
    (rotr x 2 ^^^ rotr x 13 ^^^ rotr x 22).toBitVec = Fips180.bigSigma0 x.toBitVec := by
  simp [toBitVec_rotr, Fips180.bigSigma0]

@[simp] lemma toBitVec_bigSigma1 (x : UInt32) :
    (rotr x 6 ^^^ rotr x 11 ^^^ rotr x 25).toBitVec = Fips180.bigSigma1 x.toBitVec := by
  simp [toBitVec_rotr, Fips180.bigSigma1]

lemma or_eq_add {x y i : ℕ} (hx : x % 2 ^ i = 0) (hy : y < 2 ^ i) : x ||| y = x + y := by
  obtain ⟨q, rfl⟩ := Nat.dvd_of_mod_eq_zero hx
  exact (Nat.two_pow_add_eq_or_of_lt hy q).symm

/-- A word that is read is the number its four bytes denote. -/
lemma toBitVec_be32 (a b c d : UInt8) (l : Bytes) :
    (be32 (a :: b :: c :: d :: l)).toBitVec =
      BitVec.ofNat 32 (Fips180.value (Fips180.ofBytes [a, b, c, d])) := by
  have ha := a.toNat_lt
  have hb := b.toNat_lt
  have hc := c.toNat_lt
  have hd := d.toNat_lt
  have hvalue : Fips180.value (Fips180.ofBytes [a, b, c, d]) =
      a.toNat * 2 ^ 24 + b.toNat * 2 ^ 16 + c.toNat * 2 ^ 8 + d.toNat := by
    simp [Fips180.ofBytes, Fips180.value_append, Fips180.value_bitsOf, Nat.add_assoc]
  have hab : a.toNat * 2 ^ 24 % 2 ^ 32 ||| b.toNat * 2 ^ 16 % 2 ^ 32 =
      a.toNat * 2 ^ 24 + b.toNat * 2 ^ 16 := by
    rw [or_eq_add (i := 24) (by omega) (by omega)]
    omega
  have habc : a.toNat * 2 ^ 24 + b.toNat * 2 ^ 16 ||| c.toNat * 2 ^ 8 % 2 ^ 32 =
      a.toNat * 2 ^ 24 + b.toNat * 2 ^ 16 + c.toNat * 2 ^ 8 := by
    rw [or_eq_add (i := 16) (by omega) (by omega)]
    omega
  apply BitVec.eq_of_toNat_eq
  simp only [be32, List.getD_cons_zero, List.getD_cons_succ, UInt32.toNat_toBitVec, UInt32.toNat_or,
    UInt32.toNat_shiftLeft, UInt8.toNat_toUInt32, UInt32.reduceToNat, Nat.shiftLeft_eq,
    BitVec.toNat_ofNat, hvalue, Nat.reduceMod]
  rw [hab, habc, or_eq_add (i := 8) (by omega) (by omega), Nat.mod_eq_of_lt (by omega)]

/-! ### The schedule -/

/-- The words of a block. -/
def blockWords (p : Bytes) (t : ℕ) : Word := (be32 (p.drop (4 * t))).toBitVec

lemma toBitVec_nextWord {w : List UInt32} {t : ℕ} (hw : w.length = t + 16) :
    (nextWord w).toBitVec =
      Fips180.smallSigma1 (w.getD (t + 14) 0).toBitVec + (w.getD (t + 9) 0).toBitVec +
        Fips180.smallSigma0 (w.getD (t + 1) 0).toBitVec + (w.getD t 0).toBitVec := by
  have h2 : t + 16 - 2 = t + 14 := rfl
  have h7 : t + 16 - 7 = t + 9 := rfl
  have h15 : t + 16 - 15 = t + 1 := rfl
  simp only [nextWord, hw, h2, h7, h15, Nat.add_sub_cancel, UInt32.toBitVec_add, toBitVec_sigma0,
    toBitVec_sigma1]
  ac_rfl

/-- The array `w` after `k` turns of the loop that extends it. -/
lemma map_extend (p : Bytes) (k : ℕ) :
    ((List.range k).foldl (fun w _ => w ++ [nextWord w])
      ((List.range 16).map fun i => be32 (p.drop (4 * i)))).map UInt32.toBitVec =
        (List.range (k + 16)).map (Fips180.schedule (blockWords p)) := by
  induction k with
  | zero =>
    rw [List.range_zero, List.foldl_nil, List.map_map, Nat.zero_add]
    refine List.map_congr_left fun t ht => ?_
    exact (Fips180.schedule_of_lt _ (List.mem_range.mp ht)).symm
  | succ k ih =>
    rw [List.range_succ (n := k), List.foldl_append, List.foldl_cons, List.foldl_nil,
      List.map_append]
    set w := (List.range k).foldl (fun w _ => w ++ [nextWord w])
      ((List.range 16).map fun i => be32 (p.drop (4 * i)))
    have hlen : w.length = k + 16 := by
      have := congrArg List.length ih
      rwa [List.length_map, List.length_map, List.length_range] at this
    have hget : ∀ t < k + 16, (w.getD t 0).toBitVec = Fips180.schedule (blockWords p) t := by
      intro t ht
      have hmap := List.getD_map w 0 UInt32.toBitVec (n := t)
      rw [ih] at hmap
      rw [← hmap]
      simp [List.getD, ht]
    rw [ih, List.map_singleton, toBitVec_nextWord hlen, hget _ (by omega), hget _ (by omega),
      hget _ (by omega), hget _ (by omega), ← Fips180.schedule_add, Nat.add_right_comm k 1,
      List.range_succ (n := k + 16), List.map_append, List.map_singleton]

/-- The array `w` of a block. -/
lemma map_schedule (p : Bytes) :
    (schedule p).map UInt32.toBitVec = (List.range 64).map (Fips180.schedule (blockWords p)) :=
  map_extend p 48

/-! ### The rounds -/

/-- A round is a step of the standard. -/
lemma value_round (w : ℕ → Word) {t : ℕ} (v : Words) {kw : UInt32 × UInt32}
    (hk : kw.1.toBitVec = Fips180.roundConstant t) (hw : kw.2.toBitVec = w t) :
    (round v kw).value = Fips180.step w v.value t := by
  simp only [round, Words.value, Fips180.step, Fips180.ch, Fips180.maj, UInt32.toBitVec_add,
    toBitVec_bigSigma0, toBitVec_bigSigma1, hk, hw]
  simp

/-- The loop over rounds with the constants and words of the steps `ts`. -/
lemma value_foldl_round (w : ℕ → Word) {ts : List ℕ} {kws : List (UInt32 × UInt32)}
    (h : kws.map (Prod.map UInt32.toBitVec UInt32.toBitVec) =
      ts.map fun t => (Fips180.roundConstant t, w t)) (v : Words) :
    (kws.foldl round v).value = ts.foldl (Fips180.step w) v.value := by
  induction kws generalizing ts v with
  | nil =>
    cases ts with
    | nil => rfl
    | cons t ts => cases h
  | cons kw kws ih =>
    cases ts with
    | nil => cases h
    | cons t ts =>
      obtain ⟨hkw, hkws⟩ := List.cons.inj h
      obtain ⟨hk, hw⟩ := Prod.mk.inj hkw
      rw [List.foldl_cons, List.foldl_cons, ih hkws, value_round w v hk hw]

/-- `ac_sha256_block` is the compression of the standard. -/
theorem value_acSha256Block (h : Words) (p : Bytes) :
    (acSha256Block h p).value = Fips180.compress h.value (blockWords p) := by
  have hzip : (roundConstants.zip (schedule p)).map (Prod.map UInt32.toBitVec UInt32.toBitVec) =
      (List.range 64).map fun t =>
        (Fips180.roundConstant t, Fips180.schedule (blockWords p) t) := by
    rw [← List.zip_map, ← map_roundConstant, map_schedule, List.zip_map']
  rw [Fips180.compress, ← value_foldl_round _ hzip]
  simp [acSha256Block, Words.value, BitVec.add_comm]

/-! ### The blocks of a message -/

lemma blockWords_eq {p : Bytes} {i t : ℕ} (hi : 64 * (i + 1) ≤ p.length) (ht : t < 16) :
    blockWords ((p.drop (64 * i)).take 64) t = Fips180.blockWord (Fips180.ofBytes p) i t := by
  obtain ⟨k, hk⟩ : ∃ k, 64 - 4 * t = k + 4 := ⟨60 - 4 * t, by omega⟩
  have hlen : 4 ≤ (p.drop (64 * i + 4 * t)).length := by
    rw [List.length_drop]
    omega
  rw [blockWords, Fips180.blockWord_ofBytes, List.drop_take, List.drop_drop, hk]
  match p.drop (64 * i + 4 * t), hlen with
  | a :: b :: c :: d :: l, _ => exact toBitVec_be32 a b c d (l.take k)

/-- The blocks of a message, absorbed one after the other, give the hash values of the standard. -/
theorem value_foldl_block {p : Bytes} {n : ℕ} (hn : 64 * n ≤ p.length) :
    ((List.range n).foldl (fun h i => acSha256Block h ((p.drop (64 * i)).take 64))
      acSha256Init.stream.state).value = Fips180.hashValue (Fips180.ofBytes p) n := by
  induction n with
  | zero => exact value_init
  | succ n ih =>
    rw [List.range_succ, List.foldl_append, List.foldl_cons, List.foldl_nil, value_acSha256Block,
      ih (by omega)]
    exact Fips180.compress_congr (fun t ht => blockWords_eq hn ht) _

end Anticheat.Hash
