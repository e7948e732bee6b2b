import Mathlib.Tactic.Common

/-!
# Exclusive use of resources

Agents that use at most one resource each. `Exclusive` says that a resource in use is taken and
that no two agents use the same one, so that an agent can only disturb its own resource and free
ones.
-/

variable {ι τ κ ρ : Type*}

/-- A resource in use is taken, by one agent only. -/
structure Exclusive (agents : ι → Option τ) (uses : τ → Option κ) (res : κ → Option ρ) : Prop where
  taken : ∀ t a k, agents t = some a → uses a = some k → res k ≠ none
  inj : ∀ t u a b k, agents t = some a → agents u = some b → uses a = some k → uses b = some k →
    t = u

namespace Exclusive

variable {agents agents' : ι → Option τ} {uses : τ → Option κ} {res res' : κ → Option ρ} {t u : ι}
  {a a' b : τ} {k : κ}

/-- Agents that use what they used, or nothing. -/
lemma mono (h : Exclusive agents uses res)
    (hsub : ∀ t a', agents' t = some a' →
      uses a' = none ∨ ∃ a, agents t = some a ∧ uses a = uses a') : Exclusive agents' uses res := by
  have hback : ∀ t a' k, agents' t = some a' → uses a' = some k →
      ∃ a, agents t = some a ∧ uses a = some k := by
    intro t a' k ht hk
    rcases hsub t a' ht with hnone | ⟨a, ha, heq⟩
    · exact absurd (hk.symm.trans hnone) nofun
    · exact ⟨a, ha, heq.trans hk⟩
  constructor
  · intro t a' k ht hk
    obtain ⟨a, ha, hk⟩ := hback t a' k ht hk
    exact h.taken t a k ha hk
  · intro t u a' b' k ht hu hka hkb
    obtain ⟨a, ha, hka⟩ := hback t a' k ht hka
    obtain ⟨b, hb, hkb⟩ := hback u b' k hu hkb
    exact h.inj t u a b k ha hb hka hkb

/-- An agent that turns to its own resource, to a free one or to none leaves the resources of the
others alone. -/
lemma res_eq (h : Exclusive agents uses res) (a' : τ) (ht : agents t = some a)
    (hnew : ∀ k, uses a' = some k → uses a = some k ∨ res k = none)
    (hframe : ∀ k, uses a ≠ some k → uses a' ≠ some k → res' k = res k)
    (hu : agents u = some b) (hne : u ≠ t) (hk : uses b = some k) : res' k = res k := by
  have hka : uses a ≠ some k := fun hka => hne (h.inj u t b a k hu ht hk hka)
  refine hframe k hka fun hka' => ?_
  rcases hnew k hka' with hka' | hnone
  · exact hka hka'
  · exact h.taken u b k hu hk hnone

lemma update [DecidableEq ι] (h : Exclusive agents uses res) (ht : agents t = some a)
    (hnew : ∀ k, uses a' = some k → res' k ≠ none ∧ (uses a = some k ∨ res k = none))
    (hframe : ∀ k, uses a ≠ some k → uses a' ≠ some k → res' k = res k) :
    Exclusive (Function.update agents t (some a')) uses res' := by
  have hres := fun {u b k} => h.res_eq (u := u) (b := b) (k := k) a' ht
    (fun k hk => (hnew k hk).2) hframe
  -- nobody else uses what the agent turns to
  have hother : ∀ u b k, agents u = some b → u ≠ t → uses b = some k → uses a' ≠ some k := by
    intro u b k hu hne hk hk'
    rcases (hnew k hk').2 with hka | hnone
    · exact hne (h.inj u t b a k hu ht hk hka)
    · exact h.taken u b k hu hk hnone
  constructor
  · intro u b k hu hk
    by_cases hut : u = t
    · subst hut
      rw [Function.update_self] at hu
      cases hu
      exact (hnew k hk).1
    · rw [Function.update_of_ne hut] at hu
      rw [hres hu hut hk]
      exact h.taken u b k hu hk
  · intro u v b c k hu hv hkb hkc
    by_cases hut : u = t <;> by_cases hvt : v = t
    · rw [hut, hvt]
    · subst hut
      rw [Function.update_self] at hu
      rw [Function.update_of_ne hvt] at hv
      cases hu
      exact absurd hkb (hother v c k hv hvt hkc)
    · subst hvt
      rw [Function.update_self] at hv
      rw [Function.update_of_ne hut] at hu
      cases hv
      exact absurd hkc (hother u b k hu hut hkb)
    · rw [Function.update_of_ne hut] at hu
      rw [Function.update_of_ne hvt] at hv
      exact h.inj u v b c k hu hv hkb hkc

end Exclusive
