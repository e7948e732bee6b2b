import Mathlib.Tactic.Common

/-!
# While loops

A loop as a relation between the states it starts and ends in. That a state is related to some
other one says that the loop is left; the body is a relation too, so that it can be a call that has
to return.
-/

variable {σ : Type*}

/-- The loop is left in the second state when it is entered in the first one. -/
inductive While (cond : σ → Prop) (body : σ → σ → Prop) : σ → σ → Prop
  | stop {s : σ} : ¬ cond s → While cond body s s
  | turn {s t u : σ} : cond s → body s t → While cond body t u → While cond body s u

namespace While

variable {cond : σ → Prop} {body : σ → σ → Prop}

/-- A loop whose body is a function ends in at most one state. -/
lemma unique {s u u' : σ} (h : While cond body s u) (h' : While cond body s u')
    (hbody : ∀ s t t', body s t → body s t' → t = t') : u = u' := by
  induction h with
  | stop hs =>
    cases h' with
    | stop _ => rfl
    | turn hs' _ _ => exact absurd hs' hs
  | turn hs ht _ ih =>
    cases h' with
    | stop hs' => exact absurd hs hs'
    | turn _ ht' h' =>
      cases hbody _ _ _ ht ht'
      exact ih h'

end While
