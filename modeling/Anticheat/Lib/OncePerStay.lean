import Anticheat.Lib.SlotTable
import Mathlib.Data.List.DropRight

/-!
# Answers given out once per stay

A system looks at a changing list of keys, round after round. A key gives an answer or not each
time it is looked at; the first answer is given out and the key is marked in a table, so that it is
passed over from then on, until it is no longer listed. What is given out for a key during one stay
in the list is then exactly its first answer.
-/

namespace OncePerStay

open SlotTable

variable {n : ℕ} {κ β ρ : Type*} [DecidableEq κ]

/-- Look at a key that is not marked: an answer marks it and is given out. -/
def visit (t : Table n κ Unit) (k : κ) (a : Option β) : Table n κ Unit × List (κ × β) :=
  if (find? t k).isSome then (t, [])
  else
    match a with
    | none => (t, [])
    | some b => (record t k (), [(k, b)])

/-- Look at several keys in turn. -/
def visits : List (κ × Option β) → Table n κ Unit → Table n κ Unit × List (κ × β)
  | [], t => (t, [])
  | (k, a) :: vs, t =>
    let (t, out) := visit t k a
    let (t, rest) := visits vs t
    (t, out ++ rest)

/-- One round: the keys that are not listed any more lose their marks. -/
def round (t : Table n κ Unit) (vs : List (κ × Option β)) : Table n κ Unit × List (κ × β) :=
  visits vs (forget t fun k => vs.any (·.1 = k))

/-- The table and the history after some rounds; `look` says what a round looks at. -/
def rounds (n : ℕ) (look : ρ → List (κ × Option β)) (rs : List ρ) :
    Table n κ Unit × List (ρ × List (κ × β)) :=
  rs.foldl (fun s r => ((round s.1 (look r)).1, s.2 ++ [(r, (round s.1 (look r)).2)])) (empty, [])

/-- The rounds since the key last entered the list. -/
def stay (look : ρ → List (κ × Option β)) (k : κ) (hist : List (ρ × List (κ × β))) :
    List (ρ × List (κ × β)) :=
  hist.rtakeWhile fun e => (look e.1).any (·.1 = k)

lemma stay_append (look : ρ → List (κ × Option β)) (k : κ) (hist : List (ρ × List (κ × β)))
    (e : ρ × List (κ × β)) :
    stay look k (hist ++ [e]) =
      if (look e.1).any (·.1 = k) then stay look k hist ++ [e] else [] :=
  List.rtakeWhile_concat ..

/-- The answers of a key. -/
def answers (k : κ) (vs : List (κ × Option β)) : List β :=
  vs.filterMap fun v => if v.1 = k then v.2 else none

/-- What is given out for a key. -/
def given (k : κ) (out : List (κ × β)) : List β :=
  out.filterMap fun o => if o.1 = k then some o.2 else none

lemma answers_append (k : κ) (vs vs' : List (κ × Option β)) :
    answers k (vs ++ vs') = answers k vs ++ answers k vs' :=
  List.filterMap_append

lemma given_append (k : κ) (out out' : List (κ × β)) :
    given k (out ++ out') = given k out ++ given k out' :=
  List.filterMap_append

section

variable {t : Table n κ Unit} {ks : List κ} {k k' : κ} {a : Option β} {vs : List (κ × Option β)}

/-! ### One round -/

/-- What looking at some keys does: a key is marked afterwards if it was before or has given an
answer, and its first answer is given out if it was not marked before. -/
structure Spec (vs : List (κ × Option β)) (ks : List κ) (t : Table n κ Unit)
    (r : Table n κ Unit × List (κ × β)) : Prop where
  tracks : Tracks r.1 ks
  has : ∀ k, Has r.1 k () ↔ Has t k () ∨ answers k vs ≠ []
  given_of_has : ∀ k, Has t k () → given k r.2 = []
  given_of_not_has : ∀ k, ¬ Has t k () → given k r.2 = (answers k vs).head?.toList

lemma Spec.refl (ht : Tracks t ks) : Spec ([] : List (κ × Option β)) ks t (t, []) :=
  ⟨ht, by simp [answers], by simp [given], by simp [given, answers]⟩

lemma Spec.trans {vs' : List (κ × Option β)} {r r' : Table n κ Unit × List (κ × β)}
    (h : Spec vs ks t r) (h' : Spec vs' ks r.1 r') :
    Spec (vs ++ vs') ks t (r'.1, r.2 ++ r'.2) where
  tracks := h'.tracks
  has k := by
    simp only [h'.has, h.has, answers_append, ne_eq, List.append_eq_nil_iff]
    tauto
  given_of_has k hk := by
    rw [given_append, h.given_of_has k hk, h'.given_of_has k ((h.has k).mpr (.inl hk))]
    rfl
  given_of_not_has k hk := by
    rw [given_append, answers_append, h.given_of_not_has k hk]
    cases hans : answers k vs with
    | nil =>
      have hk' : ¬ Has r.1 k () := by simp [h.has, hk, hans]
      rw [h'.given_of_not_has k hk']
      rfl
    | cons b bs =>
      have hk' : Has r.1 k () := by simp [h.has, hans]
      rw [h'.given_of_has k hk']
      rfl

lemma find?_isSome_iff (ht : Tracks t ks) : (find? t k).isSome = true ↔ Has t k () := by
  rw [Option.isSome_iff_exists]
  simp only [ht.find?_eq_some]
  exact ⟨fun ⟨_, h⟩ => h, fun h => ⟨(), h⟩⟩

lemma visit_spec (ht : Tracks t ks) (hlen : ks.length ≤ n) (hk : k ∈ ks) (a : Option β) :
    Spec [(k, a)] ks t (visit t k a) := by
  by_cases hmarked : Has t k ()
  · have hvisit : visit t k a = (t, []) := if_pos ((find?_isSome_iff ht).mpr hmarked)
    rw [hvisit]
    refine ⟨ht, fun k' => ?_, by simp [given], fun k' hk' => ?_⟩
    · by_cases hkk : k = k'
      · subst hkk
        simp [hmarked]
      · simp [answers, hkk]
    · have hkk : k ≠ k' := fun h => hk' (h ▸ hmarked)
      simp [answers, given, hkk]
  · have hnot : ¬ (find? t k).isSome = true := mt (find?_isSome_iff ht).mp hmarked
    cases a with
    | none =>
      have hvisit : visit t k (none : Option β) = (t, []) := if_neg hnot
      rw [hvisit]
      exact ⟨ht, by simp [answers], by simp [given], by simp [given, answers]⟩
    | some b =>
      have hvisit : visit t k (some b) = (record t k (), [(k, b)]) := if_neg hnot
      rw [hvisit]
      refine ⟨ht.record hlen hk _, fun k' => ?_, fun k' hk' => ?_, fun k' _ => ?_⟩
      · rw [ht.has_record hlen hk]
        by_cases hkk : k' = k
        · subst hkk
          simp [answers]
        · simp [answers, hkk, Ne.symm hkk]
      · have hkk : k ≠ k' := fun h => hmarked (h ▸ hk')
        simp [given, hkk]
      · by_cases hkk : k = k' <;> simp [given, answers, hkk]

lemma visits_spec (ht : Tracks t ks) (hlen : ks.length ≤ n) (hks : ∀ v ∈ vs, v.1 ∈ ks) :
    Spec vs ks t (visits vs t) := by
  induction vs generalizing t with
  | nil => exact Spec.refl ht
  | cons v vs ih =>
    obtain ⟨hv, hks⟩ := List.forall_mem_cons.mp hks
    have hvisit := visit_spec ht hlen hv v.2
    exact hvisit.trans (ih hvisit.tracks hks)

lemma mem_of_mem_visit {o : κ × β} (h : o ∈ (visit t k a).2) : (o.1, some o.2) = (k, a) := by
  cases a with
  | none =>
    have hnil : (visit t k (none : Option β)).2 = [] := by
      rw [visit]
      split_ifs <;> rfl
    rw [hnil] at h
    cases h
  | some b =>
    rw [visit] at h
    split_ifs at h
    · cases h
    · rw [List.mem_singleton.mp h]

/-- Only answers are given out. -/
lemma mem_of_mem_visits {o : κ × β} (h : o ∈ (visits vs t).2) : (o.1, some o.2) ∈ vs := by
  induction vs generalizing t with
  | nil => cases h
  | cons v vs ih =>
    obtain h | h := List.mem_append.mp (show o ∈ (visit t v.1 v.2).2 ++ _ from h)
    · exact List.mem_cons.mpr (.inl (mem_of_mem_visit h))
    · exact List.mem_cons_of_mem _ (ih h)

end

/-! ### Whole histories -/

variable {look : ρ → List (κ × Option β)}

lemma rounds_append (rs : List ρ) (r : ρ) :
    rounds n look (rs ++ [r]) =
      ((round (rounds n look rs).1 (look r)).1,
        (rounds n look rs).2 ++ [(r, (round (rounds n look rs).1 (look r)).2)]) := by
  simp [rounds]

/-- The keys that are marked are those that have given an answer during their stay, and what was
given out for a key during its stay is its first answer. -/
theorem rounds_spec (rs : List ρ) (hlen : ∀ r ∈ rs, (look r).length ≤ n) :
    (∃ ks, Tracks (rounds n look rs).1 ks) ∧ ∀ k,
      (Has (rounds n look rs).1 k () ↔
        (stay look k (rounds n look rs).2).flatMap (fun e => answers k (look e.1)) ≠ []) ∧
      (stay look k (rounds n look rs).2).flatMap (fun e => given k e.2) =
        ((stay look k (rounds n look rs).2).flatMap
          fun e => answers k (look e.1)).head?.toList := by
  induction rs using List.reverseRecOn with
  | nil => exact ⟨⟨[], tracks_empty []⟩, fun k => ⟨by simp [rounds, stay, not_has_empty], rfl⟩⟩
  | append_singleton rs r ih =>
    obtain ⟨⟨ks, htracks⟩, hkeys⟩ := ih fun r hr => hlen r (by simp [hr])
    have hforget : Tracks (forget (rounds n look rs).1 fun k => (look r).any (·.1 = k))
        ((look r).map Prod.fst) := by
      refine htracks.forget fun k hk => ?_
      simpa using hk
    have hspec : Spec (look r) _ _ _ := visits_spec hforget (by simpa using hlen r (by simp))
      (fun v hv => List.mem_map_of_mem hv)
    rw [rounds_append]
    refine ⟨⟨_, hspec.tracks⟩, fun k => ?_⟩
    obtain ⟨hhas, hgiven⟩ := hkeys k
    have hforgot : Has (forget (rounds n look rs).1 fun k => (look r).any (·.1 = k)) k () ↔
        Has (rounds n look rs).1 k () ∧ (look r).any (·.1 = k) = true := has_forget
    by_cases hlisted : (look r).any (·.1 = k) = true
    · -- the stay goes on
      simp only [stay_append, if_pos hlisted]
      simp only [List.flatMap_append, List.flatMap_singleton]
      rw [hgiven, round, hspec.has, hforgot, hhas]
      refine ⟨by simp only [hlisted, ne_eq, List.append_eq_nil_iff]; tauto, ?_⟩
      cases hans : (stay look k (rounds n look rs).2).flatMap fun e => answers k (look e.1) with
      | nil =>
        rw [hspec.given_of_not_has k (by simp [hforgot, hhas, hans])]
        rfl
      | cons b bs =>
        rw [hspec.given_of_has k (by rw [hforgot, hhas, hans]; exact ⟨by simp, hlisted⟩)]
        rfl
    · -- the key has left the list
      have hnone : answers k (look r) = [] := by
        rw [answers, List.filterMap_eq_nil_iff]
        intro v hv
        refine if_neg fun hvk => hlisted ?_
        exact List.any_eq_true.mpr ⟨v, hv, decide_eq_true hvk⟩
      simp only [stay_append, if_neg hlisted]
      rw [round, hspec.has, hforgot, hnone]
      exact ⟨by simp [hlisted], rfl⟩

lemma mem_of_mem_rounds {rs : List ρ} {e : ρ × List (κ × β)} (he : e ∈ (rounds n look rs).2)
    {o : κ × β} (ho : o ∈ e.2) : (o.1, some o.2) ∈ look e.1 := by
  induction rs using List.reverseRecOn with
  | nil => simp [rounds] at he
  | append_singleton rs r ih =>
    rw [rounds_append] at he
    obtain he | he := List.mem_append.mp he
    · exact ih he
    · obtain rfl := List.mem_singleton.mp he
      exact mem_of_mem_visits ho

end OncePerStay
