import Mathlib.Data.List.DropRight
import Mathlib.Data.List.Count
import Mathlib.Tactic.Common

/-!
# Retention of the newest entries of a log

A log is a list, oldest entry first. `newestPer key c` keeps of every key the `c` newest entries,
and `List.rtake g` keeps the `g` newest entries of all. The main fact is that a log that is cut
down by both after each append holds the same as one cut down once at the end.
-/

namespace Retention

variable {α κ : Type*} [DecidableEq κ] (key : α → κ) (c : ℕ)

/-- Keep the entries with fewer than `c` newer entries of the same key. -/
def newestPer : List α → List α
  | [] => []
  | x :: l =>
    if l.countP (key · = key x) < c then x :: newestPer l else newestPer l

variable {key c}

lemma newestPer_cons_of_lt {x : α} {l : List α} (h : l.countP (key · = key x) < c) :
    newestPer key c (x :: l) = x :: newestPer key c l := if_pos h

lemma newestPer_cons_of_le {x : α} {l : List α} (h : c ≤ l.countP (key · = key x)) :
    newestPer key c (x :: l) = newestPer key c l := if_neg h.not_gt

lemma newestPer_sublist (l : List α) : (newestPer key c l).Sublist l := by
  induction l with
  | nil => exact .slnil
  | cons x l ih =>
    rcases lt_or_ge (l.countP (key · = key x)) c with h | h
    · rw [newestPer_cons_of_lt h]
      exact ih.cons_cons x
    · rw [newestPer_cons_of_le h]
      exact ih.cons x

lemma countP_newestPer (l : List α) (k : κ) :
    (newestPer key c l).countP (key · = k) = min (l.countP (key · = k)) c := by
  induction l with
  | nil => simp [newestPer]
  | cons x l ih =>
    by_cases hx : key x = k
    · subst hx
      rcases lt_or_ge (l.countP (key · = key x)) c with h | h
      · rw [newestPer_cons_of_lt h, List.countP_cons, List.countP_cons, ih]
        simp
        omega
      · rw [newestPer_cons_of_le h, ih, List.countP_cons]
        simp
        omega
    · have hcount : (x :: l).countP (key · = k) = l.countP (key · = k) := by
        simp [hx]
      rw [hcount, ← ih]
      rcases lt_or_ge (l.countP (key · = key x)) c with h | h
      · rw [newestPer_cons_of_lt h]
        simp [hx]
      · rw [newestPer_cons_of_le h]

/-- A log that was cut down already can stand for the full one. -/
lemma newestPer_newestPer_append (l m : List α) :
    newestPer key c (newestPer key c l ++ m) = newestPer key c (l ++ m) := by
  induction l with
  | nil => rfl
  | cons x l ih =>
    rcases lt_or_ge (l.countP (key · = key x)) c with h | h
    · -- `x` has the same number of newer entries before and after the cut
      have hcount : (newestPer key c l ++ m).countP (key · = key x) =
          (l ++ m).countP (key · = key x) := by
        rw [List.countP_append, List.countP_append, countP_newestPer, min_eq_left h.le]
      rw [newestPer_cons_of_lt h, List.cons_append, List.cons_append, newestPer, newestPer,
        hcount, ih]
    · have hle : c ≤ (l ++ m).countP (key · = key x) := by
        rw [List.countP_append]
        omega
      rw [newestPer_cons_of_le h, ih, List.cons_append, newestPer_cons_of_le hle]

/-- An append adds one entry, unless its key is full and the oldest one of the key goes. -/
lemma length_newestPer_concat (hc : 0 < c) (l : List α) (y : α) :
    (newestPer key c (l ++ [y])).length =
      (newestPer key c l).length + if l.countP (key · = key y) < c then 1 else 0 := by
  induction l with
  | nil => simp [newestPer, hc]
  | cons x l ih =>
    rw [List.cons_append, newestPer, newestPer, List.countP_append]
    by_cases hxy : key y = key x
    · simp only [hxy, decide_true, if_true, List.countP_cons] at ih ⊢
      split_ifs at ih ⊢ <;> simp_all
    · simp only [hxy, decide_false, List.countP_cons, Ne.symm hxy] at ih ⊢
      split_ifs at ih ⊢ <;> simp_all

lemma length_newestPer_le_append (l m : List α) :
    (newestPer key c l).length ≤ (newestPer key c (l ++ m)).length := by
  rcases Nat.eq_zero_or_pos c with rfl | hc
  · have hnil : newestPer key 0 l = [] := by
      induction l with
      | nil => rfl
      | cons x l ih => rw [newestPer_cons_of_le (Nat.zero_le _), ih]
    simp [hnil]
  · induction m generalizing l with
    | nil => simp
    | cons y m ih =>
      have hstep := ih (l ++ [y])
      rw [List.append_assoc, List.singleton_append, length_newestPer_concat hc] at hstep
      omega

/-! ### Two caps -/

variable (key c) in
/-- Of the entries within the cap of their key, the `g` newest. -/
def kept (g : ℕ) (l : List α) : List α := (newestPer key c l).rtake g

variable {g : ℕ}

lemma rtake_cons (x : α) (l : List α) :
    (x :: l).rtake g = if l.length < g then x :: l else l.rtake g := by
  unfold List.rtake
  rw [List.length_cons]
  split_ifs with h
  · rw [Nat.sub_eq_zero_of_le h, List.drop_zero]
  · rw [Nat.succ_sub (not_lt.mp h), List.drop_succ_cons]

lemma rtake_of_length_le {l : List α} (h : l.length ≤ g) : l.rtake g = l := by
  rw [List.rtake, Nat.sub_eq_zero_of_le h, List.drop_zero]

/-- Cutting down now and again after more entries came is the same as cutting down once. -/
theorem kept_kept_append (l m : List α) :
    kept key c g (kept key c g l ++ m) = kept key c g (l ++ m) := by
  induction l with
  | nil => simp [kept, newestPer]
  | cons x l ih =>
    rcases lt_or_ge (l.countP (key · = key x)) c with h | h
    · rcases lt_or_ge (newestPer key c l).length g with hg | hg
      · -- nothing is over the total cap yet: both caps come down to the one per key
        have hkept : kept key c g (x :: l) = newestPer key c (x :: l) := by
          rw [kept, newestPer_cons_of_lt h, rtake_of_length_le hg]
        rw [hkept, kept, newestPer_newestPer_append, kept]
      · -- `x` is over the total cap, and stays over it
        have hdrop : kept key c g (x :: l) = kept key c g l := by
          rw [kept, newestPer_cons_of_lt h, rtake_cons, if_neg hg.not_gt, kept]
        rw [hdrop, ih, List.cons_append, kept, kept, newestPer]
        split_ifs with hx
        · have hle : (newestPer key c l).length ≤ (newestPer key c (l ++ m)).length :=
            length_newestPer_le_append l m
          rw [rtake_cons, if_neg (by omega)]
        · rfl
    · have hdrop : kept key c g (x :: l) = kept key c g l := by
        rw [kept, newestPer_cons_of_le h, kept]
      have hle : c ≤ (l ++ m).countP (key · = key x) := by
        rw [List.countP_append]
        omega
      rw [hdrop, ih, List.cons_append, kept, kept, newestPer_cons_of_le hle]

lemma exists_newestPer_concat (hc : 0 < c) (l : List α) (y : α) :
    ∃ m, newestPer key c (l ++ [y]) = m ++ [y] := by
  induction l with
  | nil => exact ⟨[], by simp [newestPer, hc]⟩
  | cons x l ih =>
    obtain ⟨m, hm⟩ := ih
    rw [List.cons_append, newestPer, hm]
    split_ifs
    · exact ⟨x :: m, rfl⟩
    · exact ⟨m, rfl⟩

/-- The newest entry is always kept. -/
lemma mem_kept_concat (hc : 0 < c) (hg : 0 < g) (l : List α) (y : α) :
    y ∈ kept key c g (l ++ [y]) := by
  obtain ⟨m, hm⟩ : ∃ m, newestPer key c (l ++ [y]) = m ++ [y] := exists_newestPer_concat hc l y
  obtain ⟨g, rfl⟩ := Nat.exists_eq_add_of_lt hg
  rw [kept, hm, Nat.zero_add, List.rtake_concat_succ]
  simp

/-! ### Cutting by a rank

The entries carry a rank that grows along the log, and a cap is applied by finding the newest entry
over it and dropping what ranks no higher. -/

section Rank

variable {rank : α → ℕ} {l : List α}

variable (rank) in
/-- The rank of the newest of the entries over a cap of `n`. -/
def overCap (n : ℕ) (l : List α) : Option ℕ := ((l.reverse.drop n).head?).map rank

lemma filter_overCap (hl : l.Pairwise (rank · < rank ·)) (n : ℕ) :
    l.filter (fun x => ∀ b ∈ overCap rank n l, b < rank x) = l.rtake n := by
  have hsplit : l.take (l.length - n) ++ l.rtake n = l := List.take_append_drop _ _
  have hover : overCap rank n l = ((l.take (l.length - n)).getLast?).map rank := by
    rw [overCap, List.drop_reverse, List.head?_reverse]
  rw [hover]
  rcases List.eq_nil_or_concat (l.take (l.length - n)) with hnil | ⟨p, b, hp⟩
  · rw [hnil, List.nil_append] at hsplit
    simp [hnil, hsplit]
  · rw [hp, List.concat_eq_append] at hsplit
    rw [← hsplit, List.append_assoc, List.pairwise_append] at hl
    obtain ⟨-, hbr, hpbr⟩ := hl
    have hcut : ∀ x, (∀ b' ∈ ((p.concat b).getLast?).map rank, b' < rank x) ↔ rank b < rank x := by
      simp
    have hp0 : p.filter (fun x => rank b < rank x) = [] := by
      refine List.filter_eq_nil_iff.mpr fun x hx => ?_
      simpa using (hpbr x hx b (by simp)).le
    have hr : (l.rtake n).filter (fun x => rank b < rank x) = l.rtake n := by
      refine List.filter_eq_self.mpr fun x hx => ?_
      simpa using List.rel_of_pairwise_cons hbr hx
    calc l.filter (fun x => ∀ b' ∈ ((l.take (l.length - n)).getLast?).map rank, b' < rank x)
        = l.filter (fun x => rank b < rank x) := by simp only [hp, hcut]
      _ = (p ++ [b] ++ l.rtake n).filter (fun x => rank b < rank x) := by rw [hsplit]
      _ = l.rtake n := by simp [List.filter_append, hp0, hr]

/-- Along a growing rank, the newer entries of the same key are those of higher rank. -/
lemma newestPer_eq_filter (hl : l.Pairwise (rank · < rank ·)) :
    newestPer key c l =
      l.filter (fun x => l.countP (fun y => key y = key x ∧ rank x < rank y) < c) := by
  induction l with
  | nil => rfl
  | cons x l ih =>
    obtain ⟨hx, hl'⟩ := List.pairwise_cons.mp hl
    have hhead : (x :: l).countP (fun y => key y = key x ∧ rank x < rank y) =
        l.countP (key · = key x) := by
      rw [List.countP_cons_of_neg (by simp)]
      exact List.countP_congr fun y hy => by simp [hx y hy]
    have htail : ∀ y ∈ l, (x :: l).countP (fun z => key z = key y ∧ rank y < rank z) =
        l.countP (fun z => key z = key y ∧ rank y < rank z) := by
      intro y hy
      exact List.countP_cons_of_neg (by simp [(hx y hy).le])
    have hrest : l.filter (fun y =>
          (x :: l).countP (fun z => key z = key y ∧ rank y < rank z) < c) =
        newestPer key c l := by
      rw [ih hl']
      exact List.filter_congr fun y hy => by rw [htail y hy]
    rw [List.filter_cons, hhead, hrest, newestPer]
    simp only [decide_eq_true_eq]

lemma newestPer_const (l : List α) : newestPer (fun _ => ()) g l = l.rtake g := by
  induction l with
  | nil => simp [newestPer]
  | cons x l ih =>
    have hcount : l.countP (fun _ => decide (() = ())) = l.length := by simp
    rw [newestPer, hcount, rtake_cons, ih]
    split_ifs with h
    · rw [rtake_of_length_le h.le]
    · rfl

/-- An entry survives the cut of a cap when fewer entries rank higher than the cap allows. -/
lemma lt_overCap_iff (hl : l.Pairwise (rank · < rank ·)) {x : α} (hx : x ∈ l) :
    (∀ b ∈ overCap rank g l, b < rank x) ↔ l.countP (fun y => rank x < rank y) < g := by
  have hsame : l.filter (fun x => ∀ b ∈ overCap rank g l, b < rank x) =
      l.filter (fun x => l.countP (fun y => () = () ∧ rank x < rank y) < g) := by
    rw [filter_overCap hl, ← newestPer_const, newestPer_eq_filter hl]
  have hmem := congrArg (x ∈ ·) hsame
  simpa [List.mem_filter, hx] using hmem

/-- The number of entries of a key that rank higher than one of them leaves that one out. -/
lemma countP_rank_lt (key : α → κ) (rank : α → ℕ) {k : κ} {x : α} (hx : x ∈ l) (hk : key x = k) :
    l.countP (fun y => key y = k ∧ rank x < rank y) < l.countP (key · = k) := by
  have hsum := List.countP_eq_countP_filter_add l (key · = k) (rank x < rank ·)
  have hself : 0 < (l.filter fun y => !decide (rank x < rank y)).countP (key · = k) :=
    List.countP_pos_iff.mpr ⟨x, List.mem_filter.mpr ⟨hx, by simp⟩, by simpa using hk⟩
  rw [List.countP_filter] at hsum
  simp only [Bool.decide_and]
  omega

end Rank

end Retention
