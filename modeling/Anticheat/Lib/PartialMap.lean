import Mathlib.Logic.Function.Basic
import Mathlib.Tactic.Common

/-!
# Updates of partial maps

Facts about all entries of a partial map `α → Option β`, and about one of them, when one place of
the map is overwritten.
-/

namespace PartialMap

variable {α β : Type*} [DecidableEq α] {f : α → Option β} {a : α} {o : Option β}

/-- An entry is the new one or one of the others. -/
theorem eq_or_of_update {b : α} {q : β} (h : Function.update f a o b = some q) :
    (b = a ∧ o = some q) ∨ (b ≠ a ∧ f b = some q) := by
  by_cases hb : b = a
  · subst hb
    rw [Function.update_self] at h
    exact .inl ⟨rfl, h⟩
  · rw [Function.update_of_ne hb] at h
    exact .inr ⟨hb, h⟩

/-- What holds of the other entries and of the new one holds of all. -/
theorem forall_update {P : α → β → Prop} (hf : ∀ b q, b ≠ a → f b = some q → P b q)
    (ho : ∀ q, o = some q → P a q) : ∀ b q, Function.update f a o b = some q → P b q := by
  intro b q hq
  rcases eq_or_of_update hq with ⟨rfl, ho'⟩ | ⟨hb, hf'⟩
  · exact ho q ho'
  · exact hf b q hb hf'

/-- What becomes of the entries that are there: the others stay, and one is replaced. -/
theorem exists_update {P : α → β → β → Prop} (hf : ∀ b q, b ≠ a → f b = some q → P b q q)
    (ho : ∀ q, f a = some q → ∃ q', o = some q' ∧ P a q q') :
    ∀ b q, f b = some q → ∃ q', Function.update f a o b = some q' ∧ P b q q' := by
  intro b q hq
  by_cases hb : b = a
  · subst hb
    rw [Function.update_self]
    exact ho q hq
  · rw [Function.update_of_ne hb]
    exact ⟨q, hq, hf b q hb hq⟩

end PartialMap
