import Mathlib.Data.List.Nodup
import Mathlib.Data.List.Perm.Subperm
import Mathlib.Data.List.Range
import Mathlib.Tactic.Common

/-!
# Ledgers of references

References to resources are numbered in the order they are taken. At any time each of them is
held at one position or has been dropped once: `Accounted` says so of the function that reads off
what each position holds. Taking a reference, dropping one and moving one to another position
keep it.
-/

namespace Ledger

variable {P T R : Type*}

/-- The references taken so far are on the resources `taken`, in this order. Each of them is held
at one position or was dropped once. -/
structure Accounted (num : T → ℕ) (res : T → R) (held : P → Option T) (taken : List R)
    (dropped : List ℕ) : Prop where
  inj : ∀ p q t u, held p = some t → held q = some u → num t = num u → p = q
  cover : ∀ k, k < taken.length ↔ k ∈ dropped ∨ ∃ p t, held p = some t ∧ num t = k
  res_eq : ∀ p t, held p = some t → taken[num t]? = some (res t)
  not_dropped : ∀ p t, held p = some t → num t ∉ dropped
  nodup : dropped.Nodup

namespace Accounted

variable {num : T → ℕ} {res : T → R} {held held' : P → Option T} {taken : List R}
  {dropped : List ℕ} {p q : P} {t : T}

lemma empty : Accounted num res (fun _ : P => none) [] [] where
  inj := nofun
  cover := by simp
  res_eq := nofun
  not_dropped := nofun
  nodup := List.nodup_nil

lemma congr (h : Accounted num res held taken dropped) (heq : ∀ p, held' p = held p) :
    Accounted num res held' taken dropped := by
  rwa [show held' = held from funext heq]

lemma num_lt (h : Accounted num res held taken dropped) (hp : held p = some t) :
    num t < taken.length :=
  (h.cover _).mpr (.inr ⟨p, t, hp, rfl⟩)

/-- Take a new reference at an empty position. -/
lemma take (h : Accounted num res held taken dropped) (hp : held p = none)
    (hp' : held' p = some t) (ht : num t = taken.length)
    (hne : ∀ r, r ≠ p → held' r = held r) :
    Accounted num res held' (taken ++ [res t]) dropped := by
  -- what the other positions hold was held before
  have hold : ∀ r u, held' r = some u → (r = p ∧ u = t) ∨ held r = some u := by
    intro r u hr
    by_cases hrp : r = p
    · subst hrp
      exact .inl ⟨rfl, Option.some.inj (hr.symm.trans hp')⟩
    · exact .inr (hne r hrp ▸ hr)
  constructor
  · intro r r' u u' hr hr' hnum
    rcases hold r u hr with ⟨rfl, rfl⟩ | hr <;> rcases hold r' u' hr' with ⟨rfl, rfl⟩ | hr'
    · rfl
    · exact absurd (hnum ▸ ht ▸ h.num_lt hr') (lt_irrefl _)
    · exact absurd (hnum ▸ ht ▸ h.num_lt hr) (lt_irrefl _)
    · exact h.inj r r' u u' hr hr' hnum
  · intro k
    rw [List.length_append, List.length_singleton, Nat.lt_succ_iff_lt_or_eq, h.cover k, or_assoc]
    refine or_congr_right ⟨?_, ?_⟩
    · rintro (⟨r, u, hr, hu⟩ | rfl)
      · have hrp : r ≠ p := by
          rintro rfl
          rw [hp] at hr
          cases hr
        exact ⟨r, u, (hne r hrp).trans hr, hu⟩
      · exact ⟨p, t, hp', ht⟩
    · rintro ⟨r, u, hr, rfl⟩
      rcases hold r u hr with ⟨-, rfl⟩ | hr
      · exact .inr ht
      · exact .inl ⟨r, u, hr, rfl⟩
  · intro r u hr
    rcases hold r u hr with ⟨-, rfl⟩ | hr
    · simp [ht]
    · exact (List.getElem?_append_left (h.num_lt hr)).trans (h.res_eq r u hr)
  · intro r u hr
    rcases hold r u hr with ⟨-, rfl⟩ | hr
    · exact fun hmem => lt_irrefl _ (ht ▸ (h.cover _).mpr (.inl hmem))
    · exact h.not_dropped r u hr
  · exact h.nodup

/-- Drop the reference a position holds. -/
lemma drop (h : Accounted num res held taken dropped) (hp : held p = some t)
    (hp' : held' p = none) (hne : ∀ r, r ≠ p → held' r = held r) :
    Accounted num res held' taken (dropped ++ [num t]) := by
  have hold : ∀ r u, held' r = some u → r ≠ p ∧ held r = some u := by
    intro r u hr
    have hrp : r ≠ p := by
      rintro rfl
      rw [hp'] at hr
      cases hr
    exact ⟨hrp, hne r hrp ▸ hr⟩
  constructor
  · intro r r' u u' hr hr'
    exact h.inj r r' u u' (hold r u hr).2 (hold r' u' hr').2
  · intro k
    rw [h.cover k, List.mem_append, List.mem_singleton, or_assoc]
    refine or_congr_right ⟨?_, ?_⟩
    · rintro ⟨r, u, hr, rfl⟩
      by_cases hrp : r = p
      · subst hrp
        exact .inl (congrArg num (Option.some.inj (hr.symm.trans hp)))
      · exact .inr ⟨r, u, (hne r hrp).trans hr, rfl⟩
    · rintro (rfl | ⟨r, u, hr, rfl⟩)
      · exact ⟨p, t, hp, rfl⟩
      · exact ⟨r, u, (hold r u hr).2, rfl⟩
  · intro r u hr
    exact h.res_eq r u (hold r u hr).2
  · intro r u hr hmem
    obtain ⟨hrp, hr⟩ := hold r u hr
    rcases List.mem_append.mp hmem with hmem | hmem
    · exact h.not_dropped r u hr hmem
    · exact hrp (h.inj r p u t hr hp (List.mem_singleton.mp hmem))
  · refine List.nodup_append.mpr ⟨h.nodup, List.nodup_singleton _, ?_⟩
    rintro i hi j hj rfl
    rw [List.mem_singleton.mp hj] at hi
    exact h.not_dropped p t hp hi

/-- Move the reference a position holds to an empty one. -/
lemma move (h : Accounted num res held taken dropped) (hp : held p = some t)
    (hq : held q = none) (hp' : held' p = none) (hq' : held' q = some t)
    (hne : ∀ r, r ≠ p → r ≠ q → held' r = held r) : Accounted num res held' taken dropped := by
  -- each reference sits where it did, but for the one moved
  have hold : ∀ r u, held' r = some u →
      (r = q ∧ held p = some u) ∨ (r ≠ p ∧ held r = some u) := by
    intro r u hr
    by_cases hrq : r = q
    · subst hrq
      exact .inl ⟨rfl, hp.trans (hq'.symm.trans hr)⟩
    · have hrp : r ≠ p := by
        rintro rfl
        rw [hp'] at hr
        cases hr
      exact .inr ⟨hrp, hne r hrp hrq ▸ hr⟩
  constructor
  · intro r r' u u' hr hr' hnum
    rcases hold r u hr with ⟨rfl, hr⟩ | ⟨hrp, hr⟩ <;>
      rcases hold r' u' hr' with ⟨rfl, hr'⟩ | ⟨hrp', hr'⟩
    · rfl
    · exact absurd (h.inj r' p u' u hr' hr hnum.symm) hrp'
    · exact absurd (h.inj r p u u' hr hr' hnum) hrp
    · exact h.inj r r' u u' hr hr' hnum
  · intro k
    rw [h.cover k]
    refine or_congr_right ⟨?_, ?_⟩
    · rintro ⟨r, u, hr, hu⟩
      by_cases hrp : r = p
      · subst hrp
        exact ⟨q, u, hq'.trans (hp.symm.trans hr), hu⟩
      · have hrq : r ≠ q := by
          rintro rfl
          rw [hq] at hr
          cases hr
        exact ⟨r, u, (hne r hrp hrq).trans hr, hu⟩
    · rintro ⟨r, u, hr, hu⟩
      rcases hold r u hr with ⟨-, hr⟩ | ⟨-, hr⟩
      · exact ⟨p, u, hr, hu⟩
      · exact ⟨r, u, hr, hu⟩
  · intro r u hr
    rcases hold r u hr with ⟨-, hr⟩ | ⟨-, hr⟩ <;> exact h.res_eq _ u hr
  · intro r u hr
    rcases hold r u hr with ⟨-, hr⟩ | ⟨-, hr⟩ <;> exact h.not_dropped _ u hr
  · exact h.nodup

/-- Once nothing is held, every reference was dropped, each of them once. -/
theorem perm_range (h : Accounted num res held taken dropped) (hnone : ∀ p, held p = none) :
    dropped.Perm (List.range taken.length) := by
  refine (List.perm_ext_iff_of_nodup h.nodup List.nodup_range).mpr fun k => ?_
  rw [List.mem_range, h.cover k]
  simp [hnone]

/-- What is held later was held before, or was taken in between. -/
lemma held_of_extend {dropped' : List ℕ} {new : List R}
    (h : Accounted num res held taken dropped)
    (h' : Accounted num res held' (taken ++ new) dropped') (hsub : dropped ⊆ dropped')
    (hp : held' p = some t) :
    (∃ q u, held q = some u ∧ num u = num t ∧ res u = res t) ∨ res t ∈ new := by
  have hres := h'.res_eq p t hp
  by_cases hlt : num t < taken.length
  · left
    have hlive : num t ∉ dropped := fun hmem => h'.not_dropped p t hp (hsub hmem)
    obtain ⟨q, u, hq, hu⟩ := ((h.cover _).mp hlt).resolve_left hlive
    refine ⟨q, u, hq, hu, Option.some.inj ?_⟩
    rw [← h.res_eq q u hq, hu, ← hres, List.getElem?_append_left hlt]
  · right
    rw [List.getElem?_append_right (Nat.le_of_not_lt hlt)] at hres
    exact List.mem_of_getElem? hres

end Accounted

/-! ### Counting -/

/-- How many references on a resource have not been dropped. -/
def outstanding [DecidableEq R] (taken : List R) (dropped : List ℕ) (m : R) : ℕ :=
  (List.range taken.length).countP fun k => taken[k]? == some m && !dropped.contains k

namespace Accounted

variable [DecidableEq R] {num : T → ℕ} {res : T → R} {held : P → Option T} {taken : List R}
  {dropped : List ℕ} {p q : P} {t u : T}

lemma mem_filter (h : Accounted num res held taken dropped) (hp : held p = some t) :
    num t ∈ (List.range taken.length).filter
      (fun k => taken[k]? == some (res t) && !dropped.contains k) := by
  rw [List.mem_filter, List.mem_range]
  refine ⟨h.num_lt hp, ?_⟩
  simp [h.res_eq p t hp, h.not_dropped p t hp]

lemma outstanding_pos (h : Accounted num res held taken dropped) (hp : held p = some t) :
    0 < outstanding taken dropped (res t) := by
  rw [outstanding, List.countP_eq_length_filter]
  exact List.length_pos_of_mem (h.mem_filter hp)

lemma two_le_outstanding (h : Accounted num res held taken dropped) (hp : held p = some t)
    (hq : held q = some u) (hne : p ≠ q) (hres : res u = res t) :
    2 ≤ outstanding taken dropped (res t) := by
  have hnum : num t ≠ num u := fun heq => hne (h.inj p q t u hp hq heq)
  have hsub : [num t, num u] ⊆ (List.range taken.length).filter
      (fun k => taken[k]? == some (res t) && !dropped.contains k) := by
    intro k hk
    simp only [List.mem_cons, List.not_mem_nil, or_false] at hk
    rcases hk with rfl | rfl
    · exact h.mem_filter hp
    · exact hres ▸ h.mem_filter hq
  have hnodup : [num t, num u].Nodup := by simp [hnum]
  rw [outstanding, List.countP_eq_length_filter]
  exact (hnodup.subperm hsub).length_le

end Accounted

end Ledger
