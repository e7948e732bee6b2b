import Mathlib.Data.List.Chain

/-!
# Gap-free walks

A list of pieces, each entered at one point and left at another, is walked from a given point for as
long as each piece is entered where the one before it was left. The walk may go up a list of
intervals or down the reversed list: the two directions only exchange `enter` and `leave`.
-/

namespace GapFree

variable {α A : Type*}

/-- Walking through `l` from the point `e` without a gap, a piece with `P` is reached. -/
def Reaches (enter leave : α → A) (P : α → Prop) : A → List α → Prop
  | _, [] => False
  | e, v :: l => enter v = e ∧ (P v ∨ Reaches enter leave P (leave v) l)

section Reaches

variable {enter leave : α → A} {P : α → Prop} {e : A} {v : α} {l : List α}

@[simp] theorem not_reaches_nil : ¬ Reaches enter leave P e [] := id

@[simp] theorem reaches_cons :
    Reaches enter leave P e (v :: l) ↔ enter v = e ∧ (P v ∨ Reaches enter leave P (leave v) l) :=
  Iff.rfl

/-- A walk that begins anywhere but where the first piece is entered reaches nothing. -/
theorem not_reaches_of_ne (h : ∀ w ∈ l.head?, enter w ≠ e) : ¬ Reaches enter leave P e l := by
  cases l with
  | nil => simp
  | cons w l => exact fun hr => h w rfl hr.1

/-- The walk from the end of `v` reaches a piece exactly if the pieces from `v` to it join up. -/
theorem reaches_leave_iff : Reaches enter leave P (leave v) l ↔
    ∃ m b r, l = m ++ b :: r ∧ P b ∧ (v :: (m ++ [b])).IsChain fun x y => leave x = enter y := by
  induction l generalizing v with
  | nil => simp
  | cons w l ih =>
    rw [reaches_cons, ih]
    constructor
    · rintro ⟨hw, hP | ⟨m, b, r, rfl, hb, hchain⟩⟩
      · exact ⟨[], w, l, rfl, hP, by simpa using hw.symm⟩
      · exact ⟨w :: m, b, r, rfl, hb, List.isChain_cons_cons.2 ⟨hw.symm, hchain⟩⟩
    · rintro ⟨m, b, r, hl, hb, hchain⟩
      cases m with
      | nil =>
        obtain ⟨rfl, rfl⟩ : w = b ∧ l = r := by simpa using hl
        exact ⟨(List.isChain_pair.1 hchain).symm, .inl hb⟩
      | cons w' m =>
        obtain ⟨rfl, rfl⟩ : w = w' ∧ l = m ++ b :: r := by simpa using hl
        obtain ⟨hw, hchain⟩ := List.isChain_cons_cons.1 hchain
        exact ⟨hw.symm, .inr ⟨m, b, r, rfl, hb, hchain⟩⟩

end Reaches

section Between

variable (start stop : α → A) (P : α → Prop)

/-- The piece `v` lies in a gap-free run that has pieces with `P` on both sides of it. -/
def Between (left : List α) (v : α) (right : List α) : Prop :=
  ∃ l a m n b r, left = l ++ a :: m ∧ right = n ++ b :: r ∧ P a ∧ P b ∧
    (a :: (m ++ v :: (n ++ [b]))).IsChain fun x y => stop x = start y

variable {start stop P} {left right : List α} {v : α}

/-- Walking down from the start of `v` and up from its end decides whether it is between. -/
theorem between_iff : Between start stop P left v right ↔
    Reaches stop start P (start v) left.reverse ∧ Reaches start stop P (stop v) right := by
  rw [reaches_leave_iff, reaches_leave_iff]
  constructor
  · rintro ⟨l, a, m, n, b, r, rfl, rfl, ha, hb, hchain⟩
    obtain ⟨hdown, hup⟩ := List.isChain_cons_split.1 hchain
    refine ⟨⟨m.reverse, a, l.reverse, by simp, ha, ?_⟩, ⟨n, b, r, rfl, hb, hup⟩⟩
    have : v :: (m.reverse ++ [a]) = (a :: (m ++ [v])).reverse := by simp
    rw [this, List.isChain_reverse]
    exact hdown.imp fun x y h => h.symm
  · rintro ⟨⟨m, a, l, hl, ha, hdown⟩, ⟨n, b, r, rfl, hb, hup⟩⟩
    refine ⟨l.reverse, a, m.reverse, n, b, r, ?_, rfl, ha, hb, List.isChain_cons_split.2 ⟨?_, hup⟩⟩
    · rw [← left.reverse_reverse, hl]
      simp
    · have : a :: (m.reverse ++ [v]) = (v :: (m ++ [a])).reverse := by simp
      rw [this, List.isChain_reverse]
      exact hdown.imp fun x y h => h.symm

end Between

end GapFree
