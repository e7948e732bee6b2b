import Mathlib.Algebra.GroupWithZero.Nat
import Mathlib.Algebra.Order.BigOperators.Group.List
import Mathlib.Algebra.Order.Group.Nat
import Mathlib.Data.List.Induction
import Mathlib.Data.List.Nodup
import Mathlib.Tactic.Common

/-!
# Calls in flight

Any number of calls run at the same time, each of them at some place of its code. The calls are a
list that only grows, so that a call is known by its position in it. `tally` adds up what the calls
hold. `Linearized` says that the calls behave like operations on an object that happen one at a
time: each call takes effect in one step of its own, the log has these steps in the order they were
taken, and the object answers the calls in this order with what they return.
-/

/-! ### What the calls hold -/

section Tally

variable {C : Type*} {f : C → ℕ} {calls : List C} {i : ℕ} {c : C}

/-- What the calls hold, added up. -/
def tally (f : C → ℕ) (calls : List C) : ℕ := (calls.map f).sum

@[simp] lemma tally_nil : tally f [] = 0 := rfl

lemma tally_concat (calls : List C) (c : C) : tally f (calls ++ [c]) = tally f calls + f c := by
  simp [tally]

lemma tally_set (hi : calls[i]? = some c) (c' : C) :
    tally f (calls.set i c') + f c = tally f calls + f c' := by
  induction calls generalizing i with
  | nil => simp at hi
  | cons d calls ih =>
    cases i with
    | zero =>
      obtain rfl : d = c := by simpa using hi
      simp only [tally, List.set_cons_zero, List.map_cons, List.sum_cons]
      omega
    | succ i =>
      have h := ih (by simpa using hi)
      simp only [tally, List.set_cons_succ, List.map_cons, List.sum_cons] at h ⊢
      omega

lemma le_tally (hi : calls[i]? = some c) : f c ≤ tally f calls :=
  List.single_le_sum (fun _ _ => Nat.zero_le _) _
    (List.mem_map.mpr ⟨c, List.mem_of_getElem? hi, rfl⟩)

lemma tally_eq_zero (h : ∀ c ∈ calls, f c = 0) : tally f calls = 0 := by
  refine List.sum_eq_zero fun n hn => ?_
  obtain ⟨c, hc, rfl⟩ := List.mem_map.mp hn
  exact h c hc

end Tally

/-! ### Where a call has got to -/

section Table

variable {C : Type*} {calls : List C} {i j : ℕ} {c d : C}

lemma getElem?_set_eq_some (hi : calls[i]? = some c) {c' : C} :
    (calls.set i c')[j]? = some d ↔ (j = i ∧ d = c') ∨ (j ≠ i ∧ calls[j]? = some d) := by
  by_cases hj : j = i
  · subst hj
    have hlt := (List.getElem?_eq_some_iff.mp hi).1
    simp [List.getElem?_set_self hlt, eq_comm]
  · rw [List.getElem?_set_ne (Ne.symm hj)]
    simp [hj]

lemma getElem?_concat_eq_some :
    (calls ++ [c])[j]? = some d ↔ (j = calls.length ∧ d = c) ∨ calls[j]? = some d := by
  rcases lt_trichotomy j calls.length with hlt | rfl | hgt
  · simp [List.getElem?_append_left hlt, hlt.ne]
  · simp [eq_comm]
  · rw [List.getElem?_append_right hgt.le]
    have hnone : calls[j]? = none := List.getElem?_eq_none hgt.le
    have hnone' : [c][j - calls.length]? = none := List.getElem?_eq_none (by simp; omega)
    simp [hnone, hnone', hgt.ne']

/-- A property of every call that the one that moves keeps. -/
lemma forall_getElem?_set {P : ℕ → C → Prop} (h : ∀ j d, calls[j]? = some d → P j d)
    (hi : calls[i]? = some c) {c' : C} (hc : P i c') :
    ∀ j d, (calls.set i c')[j]? = some d → P j d := by
  intro j d hj
  rcases (getElem?_set_eq_some hi).mp hj with ⟨rfl, rfl⟩ | ⟨-, hj⟩
  · exact hc
  · exact h j d hj

lemma forall_getElem?_concat {P : ℕ → C → Prop} (h : ∀ j d, calls[j]? = some d → P j d)
    (hc : P calls.length c) : ∀ j d, (calls ++ [c])[j]? = some d → P j d := by
  intro j d hj
  rcases getElem?_concat_eq_some.mp hj with ⟨rfl, rfl⟩ | hj
  · exact hc
  · exact h j d hj

end Table

/-! ### One operation at a time -/

namespace Linearize

variable {σ ω ρ C : Type*}

/-- A call that took effect: its position, the operation and what it returned. -/
structure Entry (ω ρ : Type*) where
  call : ℕ
  op : ω
  ret : ρ
  deriving DecidableEq, Repr

/-- The operations of the log lead an object from one state to another with the answers of the
log. `spec` says which answers the object may give, and the state it is in then. -/
inductive History (spec : σ → ω → σ → ρ → Prop) (start : σ) : List (Entry ω ρ) → σ → Prop
  | nil : History spec start [] start
  | concat {log : List (Entry ω ρ)} {s s' : σ} {e : Entry ω ρ} : History spec start log s →
      spec s e.op s' e.ret → History spec start (log ++ [e]) s'

namespace History

variable {spec : σ → ω → σ → ρ → Prop} {s t u : σ} {e : Entry ω ρ} {log log' : List (Entry ω ρ)}

lemma nil_iff : History spec s [] u ↔ u = s := by
  constructor
  · intro h
    generalize hl : ([] : List (Entry ω ρ)) = l at h
    cases h with
    | nil => rfl
    | concat _ _ => simp at hl
  · rintro rfl
    exact .nil

lemma concat_iff :
    History spec s (log ++ [e]) u ↔ ∃ t, History spec s log t ∧ spec t e.op u e.ret := by
  constructor
  · intro h
    generalize hl : log ++ [e] = l at h
    cases h with
    | nil => simp at hl
    | concat h hspec =>
      obtain ⟨rfl, he⟩ := List.append_inj' hl rfl
      cases he
      exact ⟨_, h, hspec⟩
  · rintro ⟨t, ht, hspec⟩
    exact ht.concat hspec

lemma append_iff :
    History spec s (log ++ log') u ↔ ∃ t, History spec s log t ∧ History spec t log' u := by
  induction log' using List.reverseRecOn generalizing u with
  | nil => simp [nil_iff]
  | append_singleton log' e ih =>
    simp only [← List.append_assoc, concat_iff, ih]
    constructor
    · rintro ⟨v, ⟨t, ht, hv⟩, hspec⟩
      exact ⟨t, ht, v, hv, hspec⟩
    · rintro ⟨t, ht, v, hv, hspec⟩
      exact ⟨v, ⟨t, ht, hv⟩, hspec⟩

lemma cons_iff :
    History spec s (e :: log) u ↔ ∃ t, spec s e.op t e.ret ∧ History spec t log u := by
  have hone : ∀ t, History spec s [e] t ↔ spec s e.op t e.ret := fun t => by
    rw [← List.nil_append [e], concat_iff]
    simp [nil_iff]
  rw [← List.singleton_append, append_iff]
  simp [hone]

/-- A property that the operations of the log keep. -/
lemma invariant {P : σ → Prop} (h : History spec s log u)
    (hstep : ∀ e ∈ log, ∀ s s', P s → spec s e.op s' e.ret → P s') (hs : P s) : P u := by
  induction h with
  | nil => exact hs
  | concat h hspec ih =>
    have hold := ih fun e he => hstep e (List.mem_append_left _ he)
    exact hstep _ (by simp) _ _ hold hspec

/-- Every answer of the log is one that the object may give. -/
lemma exists_spec (h : History spec s log u) (he : e ∈ log) : ∃ t t', spec t e.op t' e.ret := by
  obtain ⟨log₁, log₂, rfl⟩ := List.append_of_mem he
  obtain ⟨t, -, h⟩ := append_iff.mp h
  obtain ⟨t', hspec, -⟩ := cons_iff.mp h
  exact ⟨t, t', hspec⟩

end History

/-- Note in the log that a call took effect, if it did in this step: its answer was not decided
before and is now. -/
def note (log : List (Entry ω ρ)) (i : ℕ) (op : ω) (before after : Option ρ) :
    List (Entry ω ρ) :=
  match before, after with
  | none, some r => log ++ [⟨i, op, r⟩]
  | _, _ => log

lemma note_same (log : List (Entry ω ρ)) (i : ℕ) (op : ω) (r : Option ρ) :
    note log i op r r = log := by
  cases r <;> rfl

/-- Notes are only added at the end. -/
lemma isPrefix_note (log : List (Entry ω ρ)) (i : ℕ) (op : ω) (before after : Option ρ) :
    log <+: note log i op before after := by
  unfold note
  split
  · exact List.prefix_append _ _
  · exact List.prefix_rfl

/-- The log is a sequential history of the object, and it has the calls whose answer is decided,
each of them once, with this answer. -/
structure Linearized (spec : σ → ω → σ → ρ → Prop) (start : σ) (op : C → ω)
    (ret : C → Option ρ) (calls : List C) (log : List (Entry ω ρ)) (s : σ) : Prop where
  history : History spec start log s
  nodup : (log.map Entry.call).Nodup
  mem_iff : ∀ i o r, ⟨i, o, r⟩ ∈ log ↔ ∃ c, calls[i]? = some c ∧ op c = o ∧ ret c = some r

namespace Linearized

variable {spec : σ → ω → σ → ρ → Prop} {start : σ} {op : C → ω} {ret : C → Option ρ}
  {calls : List C} {log : List (Entry ω ρ)} {s s' : σ} {i : ℕ} {c c' : C}

lemma nil : Linearized spec start op ret [] [] start where
  history := .nil
  nodup := List.nodup_nil
  mem_iff := by simp

/-- A new call has not taken effect. -/
lemma concat (h : Linearized spec start op ret calls log s) (hc : ret c = none) :
    Linearized spec start op ret (calls ++ [c]) log s where
  history := h.history
  nodup := h.nodup
  mem_iff i o r := by
    rw [h.mem_iff]
    constructor
    · rintro ⟨d, hd, hor⟩
      exact ⟨d, getElem?_concat_eq_some.mpr (.inr hd), hor⟩
    · rintro ⟨d, hd, ho, hr⟩
      rcases getElem?_concat_eq_some.mp hd with ⟨-, rfl⟩ | hd
      · rw [hc] at hr
        cases hr
      · exact ⟨d, hd, ho, hr⟩

/-- A step of a call that does not decide its answer leaves the object alone. -/
lemma move (h : Linearized spec start op ret calls log s) (hi : calls[i]? = some c)
    (hop : op c' = op c) (hret : ret c' = ret c) :
    Linearized spec start op ret (calls.set i c') log s where
  history := h.history
  nodup := h.nodup
  mem_iff j o r := by
    rw [h.mem_iff]
    constructor
    · rintro ⟨d, hd, ho, hr⟩
      by_cases hj : j = i
      · subst hj
        obtain rfl : c = d := Option.some.inj (hi.symm.trans hd)
        exact ⟨c', (getElem?_set_eq_some hi).mpr (.inl ⟨rfl, rfl⟩), hop.trans ho, hret.trans hr⟩
      · exact ⟨d, (getElem?_set_eq_some hi).mpr (.inr ⟨hj, hd⟩), ho, hr⟩
    · rintro ⟨d, hd, ho, hr⟩
      rcases (getElem?_set_eq_some hi).mp hd with ⟨rfl, rfl⟩ | ⟨-, hd⟩
      · exact ⟨c, hi, hop.symm.trans ho, hret.symm.trans hr⟩
      · exact ⟨d, hd, ho, hr⟩

/-- The step in which a call takes effect. -/
lemma commit (h : Linearized spec start op ret calls log s) (hi : calls[i]? = some c)
    (hop : op c' = op c) (hnone : ret c = none) {r : ρ} (hr : ret c' = some r)
    (hspec : spec s (op c) s' r) :
    Linearized spec start op ret (calls.set i c') (log ++ [⟨i, op c, r⟩]) s' := by
  have hnew : ∀ o r, (⟨i, o, r⟩ : Entry ω ρ) ∉ log := by
    intro o r hmem
    obtain ⟨d, hd, -, hr⟩ := (h.mem_iff i o r).mp hmem
    obtain rfl : c = d := Option.some.inj (hi.symm.trans hd)
    rw [hnone] at hr
    cases hr
  constructor
  · exact h.history.concat hspec
  · rw [List.map_append]
    refine List.nodup_append.mpr ⟨h.nodup, List.nodup_singleton _, ?_⟩
    rintro j hj k hk rfl
    obtain ⟨e, he, rfl⟩ := List.mem_map.mp hj
    obtain rfl : e.call = i := by simpa using hk
    exact hnew e.op e.ret he
  · intro j o r'
    rw [List.mem_append, h.mem_iff, List.mem_singleton, Entry.mk.injEq]
    constructor
    · rintro (⟨d, hd, ho, hr'⟩ | ⟨rfl, rfl, rfl⟩)
      · have hj : j ≠ i := by
          rintro rfl
          exact hnew o r' ((h.mem_iff j o r').mpr ⟨d, hd, ho, hr'⟩)
        exact ⟨d, (getElem?_set_eq_some hi).mpr (.inr ⟨hj, hd⟩), ho, hr'⟩
      · exact ⟨c', (getElem?_set_eq_some hi).mpr (.inl ⟨rfl, rfl⟩), hop, hr⟩
    · rintro ⟨d, hd, ho, hr'⟩
      rcases (getElem?_set_eq_some hi).mp hd with ⟨rfl, rfl⟩ | ⟨-, hd⟩
      · exact .inr ⟨rfl, ho.symm.trans hop, Option.some.inj (hr'.symm.trans hr)⟩
      · exact .inl ⟨d, hd, ho, hr'⟩

/-- Either of these, as the log is kept. -/
lemma advance (h : Linearized spec start op ret calls log s) (hi : calls[i]? = some c)
    (hop : op c' = op c)
    (hstep : (ret c' = ret c ∧ s' = s) ∨
      ∃ r, ret c = none ∧ ret c' = some r ∧ spec s (op c) s' r) :
    Linearized spec start op ret (calls.set i c') (note log i (op c) (ret c) (ret c')) s' := by
  rcases hstep with ⟨hret, rfl⟩ | ⟨r, hnone, hr, hspec⟩
  · rw [hret, note_same]
    exact h.move hi hop hret
  · rw [hnone, hr]
    exact h.commit hi hop hnone hr hspec

/-- A call whose answer is decided is in the log with it. -/
lemma mem_log (h : Linearized spec start op ret calls log s) (hi : calls[i]? = some c) {r : ρ}
    (hr : ret c = some r) : ⟨i, op c, r⟩ ∈ log :=
  (h.mem_iff i _ r).mpr ⟨c, hi, rfl, hr⟩

end Linearized

end Linearize
