import Mathlib.Order.Lattice
import Mathlib.Tactic.Common

/-!
# Sweeping a point over intervals

A point moves to the end of any half-open interval that contains it, pass after pass over a list of
intervals, until it stands in none or reaches a bound. It stops short of the bound exactly when
some point of the way is in no interval.
-/

namespace Sweep

variable {α : Type*} [LinearOrder α]

/-- One pass over the intervals. -/
def pass (is : List (α × α)) (lo : α) : α :=
  is.foldl (fun lo i => if i.1 ≤ lo ∧ lo < i.2 then i.2 else lo) lo

/-- Passes while the point is below the bound and moves; the number is the most passes made. -/
def sweep (is : List (α × α)) (hi : α) : ℕ → α → α
  | 0, lo => lo
  | fuel + 1, lo =>
    if lo < hi then
      if pass is lo ≠ lo then sweep is hi fuel (pass is lo) else lo
    else lo

/-- The point is in one of the intervals. -/
def Covered (is : List (α × α)) (x : α) : Prop := ∃ i ∈ is, i.1 ≤ x ∧ x < i.2

variable {is : List (α × α)} {lo hi x : α}

lemma pass_cons (i : α × α) (is : List (α × α)) (lo : α) :
    pass (i :: is) lo = pass is (if i.1 ≤ lo ∧ lo < i.2 then i.2 else lo) := rfl

lemma le_pass (is : List (α × α)) (lo : α) : lo ≤ pass is lo := by
  induction is generalizing lo with
  | nil => exact le_refl lo
  | cons i is ih =>
    rw [pass_cons]
    split_ifs with h
    · exact le_trans (le_of_lt h.2) (ih i.2)
    · exact ih lo

/-- A pass does not jump over a point that is in no interval. -/
lemma pass_le (hx : ¬ Covered is x) (hlo : lo ≤ x) : pass is lo ≤ x := by
  induction is generalizing lo with
  | nil => exact hlo
  | cons i is ih =>
    have hx' : ¬ Covered is x := fun ⟨j, hj, h⟩ => hx ⟨j, List.mem_cons_of_mem _ hj, h⟩
    rw [pass_cons]
    split_ifs with h
    · refine ih hx' (not_lt.mp fun hlt => hx ⟨i, List.mem_cons_self, ?_, hlt⟩)
      exact le_trans h.1 hlo
    · exact ih hx' hlo

/-- A pass moves the point behind every interval that starts at or before it. -/
lemma snd_le_pass {i : α × α} (hi : i ∈ is) (hlo : i.1 ≤ lo) : i.2 ≤ pass is lo := by
  induction is generalizing lo with
  | nil => cases hi
  | cons j is ih =>
    rw [pass_cons]
    rcases List.mem_cons.mp hi with rfl | hi
    · split_ifs with h
      · exact le_pass is i.2
      · exact le_trans (not_lt.mp fun hlt => h ⟨hlo, hlt⟩) (le_pass is lo)
    · split_ifs with h
      · exact ih hi (le_trans hlo (le_of_lt h.2))
      · exact ih hi hlo

lemma covered_of_pass_ne (h : pass is lo ≠ lo) : Covered is lo := by
  induction is with
  | nil => exact absurd rfl h
  | cons i is ih =>
    rw [pass_cons] at h
    split_ifs at h with hi
    · exact ⟨i, List.mem_cons_self, hi⟩
    · obtain ⟨j, hj, hin⟩ := ih h
      exact ⟨j, List.mem_cons_of_mem _ hj, hin⟩

lemma sweep_le (hx : ¬ Covered is x) (hlo : lo ≤ x) (fuel : ℕ) : sweep is hi fuel lo ≤ x := by
  induction fuel generalizing lo with
  | zero => exact hlo
  | succ fuel ih =>
    rw [sweep]
    split_ifs
    · exact ih (pass_le hx hlo)
    · exact hlo
    · exact hlo

lemma le_sweep (fuel : ℕ) (lo : α) : lo ≤ sweep is hi fuel lo := by
  induction fuel generalizing lo with
  | zero => exact le_refl lo
  | succ fuel ih =>
    rw [sweep]
    split_ifs
    · exact le_trans (le_pass is lo) (ih _)
    · exact le_refl lo
    · exact le_refl lo

/-- The intervals that a point has not passed. -/
def ahead (is : List (α × α)) (lo : α) : ℕ := is.countP fun i => lo < i.2

lemma ahead_anti {a b : α} (hab : a ≤ b) (is : List (α × α)) : ahead is b ≤ ahead is a := by
  refine List.countP_mono_left fun i _ hi => ?_
  simp only [decide_eq_true_eq] at hi ⊢
  exact lt_of_le_of_lt hab hi

/-- A pass that moves the point leaves an interval behind. -/
lemma ahead_pass_lt (h : pass is lo ≠ lo) : ahead is (pass is lo) < ahead is lo := by
  obtain ⟨i, hi, hin⟩ := covered_of_pass_ne h
  have hpassed : ¬ pass is lo < i.2 := not_lt.mpr (snd_le_pass hi hin.1)
  have hle := le_pass is lo
  generalize pass is lo = lo' at hpassed hle
  obtain ⟨l, l', rfl⟩ := List.append_of_mem hi
  have h1 := ahead_anti hle l
  have h2 := ahead_anti hle l'
  simp only [ahead, List.countP_append, List.countP_cons, hpassed, hin.2, decide_true,
    decide_false, if_true] at h1 h2 ⊢
  simp only [Bool.false_eq_true, if_false]
  omega

/-- With as many passes as there are intervals ahead, the point stops at the bound or in no
interval. -/
lemma not_covered_sweep {fuel : ℕ} (hfuel : ahead is lo ≤ fuel) (h : sweep is hi fuel lo < hi) :
    ¬ Covered is (sweep is hi fuel lo) := by
  induction fuel generalizing lo with
  | zero =>
    rintro ⟨i, hmem, hin⟩
    have hpos : 0 < ahead is lo := List.countP_pos_iff.mpr ⟨i, hmem, by simpa [sweep] using hin.2⟩
    omega
  | succ fuel ih =>
    rw [sweep] at h ⊢
    split_ifs at h ⊢ with hlt hmove
    · exact ih (by have := ahead_pass_lt hmove; omega) h
    · rintro ⟨i, hmem, hin⟩
      have hpass := snd_le_pass hmem hin.1
      rw [not_not.mp hmove] at hpass
      exact absurd hin.2 (not_lt.mpr hpass)
    · exact absurd h hlt

/-- The sweep stops short of the bound exactly when a point before it is in no interval. -/
theorem sweep_lt_iff : sweep is hi is.length lo < hi ↔ ∃ x, lo ≤ x ∧ x < hi ∧ ¬ Covered is x := by
  constructor
  · intro h
    exact ⟨_, le_sweep _ _, h, not_covered_sweep List.countP_le_length h⟩
  · rintro ⟨x, hlo, hhi, hx⟩
    exact lt_of_le_of_lt (sweep_le hx hlo _) hhi

end Sweep
