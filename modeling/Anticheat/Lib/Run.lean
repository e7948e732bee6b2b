import Mathlib.Data.List.Induction
import Mathlib.Tactic.Common

/-!
# Runs of a partial step function

A system is a step function `σ → α → Option σ`: an action is either not enabled in a state or
leads to one state, and all scheduling is in the list of actions. `run` follows such a list.
-/

namespace Transition

variable {σ α : Type*}

/-- Follow a list of actions; `none` as soon as one of them is not enabled. -/
def run (step : σ → α → Option σ) (s : σ) (as : List α) : Option σ :=
  as.foldlM step s

variable {step : σ → α → Option σ}

@[simp] lemma run_nil (s : σ) : run step s [] = some s := rfl

lemma run_cons (s : σ) (a : α) (as : List α) :
    run step s (a :: as) = (step s a).bind fun s' => run step s' as := rfl

lemma run_cons_eq_some {s s' : σ} {a : α} {as : List α} :
    run step s (a :: as) = some s' ↔ ∃ t, step s a = some t ∧ run step t as = some s' := by
  rw [run_cons, Option.bind_eq_some_iff]

lemma run_append (s : σ) (as bs : List α) :
    run step s (as ++ bs) = (run step s as).bind fun s' => run step s' bs := by
  simp only [run, List.foldlM_append]
  rfl

/-- A property that every step keeps holds at the end of every run that starts in it. -/
theorem run_invariant {P : σ → Prop}
    (hstep : ∀ s a s', P s → step s a = some s' → P s')
    {s s' : σ} {as : List α} (hs : P s) (h : run step s as = some s') : P s' := by
  induction as generalizing s with
  | nil =>
    cases h
    exact hs
  | cons a as ih =>
    obtain ⟨t, hst, ht⟩ := run_cons_eq_some.mp h
    exact ih (hstep s a t hs hst) ht

/-- The rule for properties that only steps of a given kind keep. -/
theorem run_invariant_of_forall {P : σ → Prop} {A : α → Prop}
    (hstep : ∀ s a s', A a → P s → step s a = some s' → P s')
    {s s' : σ} {as : List α} (hA : ∀ a ∈ as, A a) (hs : P s)
    (h : run step s as = some s') : P s' := by
  induction as generalizing s with
  | nil =>
    cases h
    exact hs
  | cons a as ih =>
    obtain ⟨t, hst, ht⟩ := run_cons_eq_some.mp h
    have ha := hA a List.mem_cons_self
    exact ih (fun b hb => hA b (List.mem_cons_of_mem _ hb)) (hstep s a t ha hs hst) ht

/-- If in every state of `P` short of the goal `Q` a step of kind `A` can be taken that keeps `P`
and makes `μ` smaller, then such steps lead to the goal. -/
theorem exists_run_of_decreasing {P Q : σ → Prop} {A : α → Prop} (μ : σ → ℕ)
    (hstep : ∀ s, P s → ¬ Q s → ∃ a s', A a ∧ step s a = some s' ∧ P s' ∧ μ s' < μ s)
    {s : σ} (hs : P s) :
    ∃ as s', (∀ a ∈ as, A a) ∧ run step s as = some s' ∧ P s' ∧ Q s' := by
  induction hμ : μ s using Nat.strongRecOn generalizing s with
  | _ n ih =>
    by_cases hQ : Q s
    · exact ⟨[], s, nofun, rfl, hs, hQ⟩
    · obtain ⟨a, t, ha, hst, ht, hlt⟩ := hstep s hs hQ
      obtain ⟨as, s', has, hrun, hgoal⟩ := ih (μ t) (hμ ▸ hlt) ht rfl
      refine ⟨a :: as, s', ?_, run_cons_eq_some.mpr ⟨t, hst, hrun⟩, hgoal⟩
      intro b hb
      rcases List.mem_cons.mp hb with rfl | hb
      · exact ha
      · exact has b hb

/-- A run that leaves `P` does so in one of its steps. -/
theorem exists_step_leaving {P : σ → Prop} {s s' : σ} {as : List α} (hs : P s) (hs' : ¬ P s')
    (h : run step s as = some s') :
    ∃ as₁ a as₂ t t', as = as₁ ++ a :: as₂ ∧ run step s as₁ = some t ∧ P t ∧
      step t a = some t' ∧ ¬ P t' ∧ run step t' as₂ = some s' := by
  induction as generalizing s with
  | nil =>
    cases h
    exact absurd hs hs'
  | cons a as ih =>
    obtain ⟨t, hst, ht⟩ := run_cons_eq_some.mp h
    by_cases hP : P t
    · obtain ⟨as₁, b, as₂, u, u', rfl, hu, hrest⟩ := ih hP ht
      exact ⟨a :: as₁, b, as₂, u, u', rfl, run_cons_eq_some.mpr ⟨t, hst, hu⟩, hrest⟩
    · exact ⟨[], a, as, s, t, rfl, rfl, hs, hst, hP, ht⟩

/-! ### Restricting the steps -/

/-- The system in which only the steps that meet `ok` are taken. -/
def restrict (ok : σ → α → Bool) (step : σ → α → Option σ) : σ → α → Option σ :=
  fun s a => if ok s a then step s a else none

variable {ok : σ → α → Bool}

lemma restrict_eq_some {s s' : σ} {a : α} :
    restrict ok step s a = some s' ↔ ok s a ∧ step s a = some s' := by
  unfold restrict
  split_ifs with h <;> simp [h]

/-- A restricted run is a run. -/
lemma run_of_run_restrict {s s' : σ} {as : List α}
    (h : run (restrict ok step) s as = some s') : run step s as = some s' := by
  induction as generalizing s with
  | nil => exact h
  | cons a as ih =>
    obtain ⟨t, hst, ht⟩ := run_cons_eq_some.mp h
    exact run_cons_eq_some.mpr ⟨t, (restrict_eq_some.mp hst).2, ih ht⟩

/-! ### Taking notes -/

/-- The system with a record that each step changes by what it finds in the state before it. -/
def watch {γ : Type*} (note : σ → α → γ → γ) (step : σ → α → Option σ) :
    σ × γ → α → Option (σ × γ) :=
  fun p a => (step p.1 a).map fun s' => (s', note p.1 a p.2)

section Watch

variable {γ : Type*} {note : σ → α → γ → γ}

lemma watch_eq_some {p q : σ × γ} {a : α} :
    watch note step p a = some q ↔ step p.1 a = some q.1 ∧ note p.1 a p.2 = q.2 := by
  rw [watch, Option.map_eq_some_iff]
  constructor
  · rintro ⟨s', hs', rfl⟩
    exact ⟨hs', rfl⟩
  · rintro ⟨hstep, hnote⟩
    exact ⟨q.1, hstep, Prod.ext rfl hnote⟩

/-- What is noted does not change the run. -/
lemma run_of_run_watch {p q : σ × γ} {as : List α} (h : run (watch note step) p as = some q) :
    run step p.1 as = some q.1 := by
  induction as generalizing p with
  | nil =>
    cases h
    rfl
  | cons a as ih =>
    obtain ⟨r, hst, hr⟩ := run_cons_eq_some.mp h
    exact run_cons_eq_some.mpr ⟨r.1, (watch_eq_some.mp hst).1, ih hr⟩

end Watch

/-! ### Conditions on the steps of a run -/

/-- Every step of the run meets `Ok` in the state in which it is taken. -/
def Along (step : σ → α → Option σ) (Ok : σ → α → Prop) : σ → List α → Prop
  | _, [] => True
  | s, a :: as => Ok s a ∧ ∀ s', step s a = some s' → Along step Ok s' as

section Along

variable {Ok Ok' : σ → α → Prop} {s s' : σ} {as : List α}

lemma along_cons {a : α} :
    Along step Ok s (a :: as) ↔ Ok s a ∧ ∀ s', step s a = some s' → Along step Ok s' as := Iff.rfl

lemma along_iff : Along step Ok s as ↔
    ∀ as₁ a as₂ t, as = as₁ ++ a :: as₂ → run step s as₁ = some t → Ok t a := by
  induction as generalizing s with
  | nil => exact iff_of_true trivial fun as₁ a as₂ t h => absurd h (by simp)
  | cons b as ih =>
    rw [along_cons]
    constructor
    · rintro ⟨hb, hrest⟩ as₁ a as₂ t heq hrun
      cases as₁ with
      | nil =>
        obtain ⟨rfl, rfl⟩ : b = a ∧ as = as₂ := by simpa using heq
        cases hrun
        exact hb
      | cons c as₁ =>
        obtain ⟨rfl, rfl⟩ : b = c ∧ as = as₁ ++ a :: as₂ := by simpa using heq
        obtain ⟨s', hst, hrun⟩ := run_cons_eq_some.mp hrun
        exact ih.mp (hrest s' hst) as₁ a as₂ t rfl hrun
    · intro h
      refine ⟨h [] b as s rfl rfl, fun s' hst => ih.mpr fun as₁ a as₂ t heq hrun => ?_⟩
      exact h (b :: as₁) a as₂ t (by rw [heq]; rfl) (run_cons_eq_some.mpr ⟨s', hst, hrun⟩)

lemma Along.and (h : Along step Ok s as) (h' : Along step Ok' s as) :
    Along step (fun s a => Ok s a ∧ Ok' s a) s as :=
  along_iff.mpr fun as₁ a as₂ t heq hrun =>
    ⟨along_iff.mp h as₁ a as₂ t heq hrun, along_iff.mp h' as₁ a as₂ t heq hrun⟩

/-- The rule for properties that steps keep which meet a condition. -/
theorem run_invariant_of_along {P : σ → Prop}
    (hstep : ∀ s a s', Ok s a → P s → step s a = some s' → P s')
    (hok : Along step Ok s as) (hs : P s) (h : run step s as = some s') : P s' := by
  induction as generalizing s with
  | nil =>
    cases h
    exact hs
  | cons a as ih =>
    obtain ⟨t, hst, ht⟩ := run_cons_eq_some.mp h
    exact ih (hok.2 t hst) (hstep s a t hok.1 hs hst) ht

/-- The steps of a restricted run meet the condition it is restricted by. -/
lemma along_of_run_restrict (hOk : ∀ s a, ok s a = true → Ok s a)
    (h : run (restrict ok step) s as = some s') : Along step Ok s as := by
  induction as generalizing s with
  | nil => trivial
  | cons a as ih =>
    obtain ⟨t, hst, ht⟩ := run_cons_eq_some.mp h
    obtain ⟨ha, hst⟩ := restrict_eq_some.mp hst
    refine ⟨hOk s a ha, fun t' hst' => ?_⟩
    cases hst.symm.trans hst'
    exact ih ht

end Along

/-- The rule for a loop over a list: the invariant speaks of the elements already done. -/
theorem foldl_invariant {β : Type*} {f : β → α → β} {P : List α → β → Prop}
    (hstep : ∀ l a b, a ∉ l → P l b → P (l ++ [a]) (f b a))
    {l : List α} (hl : l.Nodup) {b : β} (hb : P [] b) : P l (l.foldl f b) := by
  induction l using List.reverseRecOn with
  | nil => exact hb
  | append_singleton l a ih =>
    rw [List.foldl_append]
    have hl' := List.nodup_append.mp hl
    have ha : a ∉ l := fun h => hl'.2.2 a h a (List.mem_singleton_self a) rfl
    exact hstep l a _ ha (ih hl'.1)

end Transition
