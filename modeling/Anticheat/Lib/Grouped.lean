import Mathlib.Data.List.Basic

/-!
# Visiting a list group by group

Two nested loops over one list that gather the elements of equal key: the outer loop skips an
element without a key or with the key of an earlier one, the inner loop visits every element from
there on that has its key. In this order every element with a key is visited once.
-/

namespace Grouped

variable {α κ : Type*} [DecidableEq κ] (key : α → Option κ)

/-- The element has a key that no element of `before` has. -/
def isNew (before : List α) (x : α) : Bool :=
  (key x).isSome && !before.any fun y => key y = key x

/-- The elements in the order of the visits, from the place where the outer loop has gone past
`before`. -/
def visits : List α → List α → List α
  | _, [] => []
  | before, x :: l =>
    (if isNew key before x then (x :: l).filter fun y => key y = key x else []) ++
      visits (before ++ [x]) l

variable {key}

theorem isNew_append_singleton (before : List α) (x y : α) :
    isNew key (before ++ [x]) y = (isNew key before y && !decide (key x = key y)) := by
  simp [isNew, Bool.and_assoc]

theorem isNew_congr {before : List α} {x y : α} (h : key y = key x) :
    isNew key before y = isNew key before x := by
  simp [isNew, h]

/-- Going past an element that is not new changes nothing for the others. -/
theorem isNew_append_singleton_of_not {before : List α} {x : α} (h : ¬ isNew key before x)
    (y : α) : isNew key (before ++ [x]) y = isNew key before y := by
  rw [isNew_append_singleton]
  by_cases hxy : key x = key y
  · simp only [isNew_congr hxy.symm, Bool.not_eq_true _ ▸ h, Bool.false_and]
  · simp [hxy]

/-- Every element with a new key is visited, as often as the list has it. -/
theorem visits_perm_filter (before l : List α) :
    (visits key before l).Perm (l.filter (isNew key before)) := by
  induction l generalizing before with
  | nil => exact .refl _
  | cons x l ih =>
    rw [visits]
    split_ifs with hnew
    · -- the group of `x` now, and the elements of the other new keys later
      have hgroup : (x :: l).filter (fun y => key y = key x) =
          ((x :: l).filter (isNew key before)).filter fun y => key y = key x := by
        rw [List.filter_filter]
        refine List.filter_congr fun y _ => ?_
        by_cases hy : key y = key x
        · simp [hy, isNew_congr hy, hnew]
        · simp [hy]
      have hothers : l.filter (isNew key (before ++ [x])) =
          ((x :: l).filter (isNew key before)).filter fun y => !decide (key y = key x) := by
        rw [List.filter_filter, List.filter_cons_of_neg (by simp)]
        refine List.filter_congr fun y _ => ?_
        rw [isNew_append_singleton, Bool.and_comm, decide_eq_decide.2 (eq_comm (a := key x))]
      rw [hgroup]
      refine ((ih (before ++ [x])).append_left _).trans ?_
      rw [hothers]
      exact List.filter_append_perm _ _
    · rw [List.nil_append, List.filter_cons_of_neg hnew]
      refine (ih (before ++ [x])).trans (.of_eq ?_)
      exact List.filter_congr fun y _ => isNew_append_singleton_of_not hnew y

/-- The loops visit every element that has a key, as often as the list has it. -/
theorem visits_perm (l : List α) : (visits key [] l).Perm (l.filter fun x => (key x).isSome) := by
  refine (visits_perm_filter [] l).trans (.of_eq ?_)
  exact List.filter_congr fun x _ => by simp [isNew]

theorem mem_visits {l : List α} {x : α} : x ∈ visits key [] l ↔ x ∈ l ∧ (key x).isSome := by
  rw [(visits_perm l).mem_iff, List.mem_filter]

end Grouped
