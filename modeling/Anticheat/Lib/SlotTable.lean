import Mathlib.Data.Fintype.Card
import Mathlib.Data.List.FinRange
import Mathlib.Data.List.Induction

/-!
# Tables of a fixed number of slots

A table of `n` slots that are free or hold a key with a value. One loop over the slots looks for a
key and for a free slot on the way; another one frees the slots of keys that are not wanted any
more. As long as the keys are among `n` given ones there is a slot for each of them.
-/

namespace SlotTable

abbrev Table (n : ℕ) (κ ν : Type*) := Fin n → Option (κ × ν)

variable {n : ℕ} {κ ν : Type*}

def empty : Table n κ ν := fun _ => none

/-- The loop over the slots: the slot of the key, or else the first free one. -/
def scan [DecidableEq κ] (t : Table n κ ν) (k : κ) :
    List (Fin n) → Option (Fin n) → Fin n ⊕ Option (Fin n)
  | [], free => .inr free
  | i :: is, free =>
    if (t i).map Prod.fst = some k then .inl i
    else scan t k is (if free.isNone && (t i).isNone then some i else free)

/-- Free the slots of the keys that are not kept. -/
def forget (t : Table n κ ν) (keep : κ → Bool) : Table n κ ν := fun i => (t i).filter (keep ·.1)

/-- Give the key a value, in its slot or in a free one if there is one. -/
def record [DecidableEq κ] (t : Table n κ ν) (k : κ) (v : ν) : Table n κ ν :=
  match scan t k (List.finRange n) none with
  | .inl i => Function.update t i (some (k, v))
  | .inr (some i) => Function.update t i (some (k, v))
  | .inr none => t

/-- The value of a key. -/
def find? [DecidableEq κ] (t : Table n κ ν) (k : κ) : Option ν :=
  match scan t k (List.finRange n) none with
  | .inl i => (t i).map Prod.snd
  | .inr _ => none

/-- The table holds the key with this value. -/
def Has (t : Table n κ ν) (k : κ) (v : ν) : Prop := ∃ i, t i = some (k, v)

/-- No two slots hold the same key, and all keys are among the given ones. -/
structure Tracks (t : Table n κ ν) (ks : List κ) : Prop where
  distinct : ∀ i j a b, t i = some a → t j = some b → a.1 = b.1 → i = j
  mem : ∀ i a, t i = some a → a.1 ∈ ks

variable {t : Table n κ ν} {ks : List κ} {k k' : κ} {v v' : ν}

lemma not_has_empty : ¬ Has (empty : Table n κ ν) k v := by
  rintro ⟨i, hi⟩
  cases hi

lemma tracks_empty (ks : List κ) : Tracks (empty : Table n κ ν) ks where
  distinct _ _ _ _ hi := by cases hi
  mem _ _ hi := by cases hi

/-- A key has one value. -/
lemma Tracks.unique (h : Tracks t ks) (hv : Has t k v) (hv' : Has t k v') : v = v' := by
  obtain ⟨i, hi⟩ := hv
  obtain ⟨j, hj⟩ := hv'
  obtain rfl := h.distinct i j _ _ hi hj rfl
  cases hi.symm.trans hj
  rfl

/-! ### Forgetting -/

lemma has_forget {keep : κ → Bool} : Has (forget t keep) k v ↔ Has t k v ∧ keep k = true := by
  simp [Has, forget, Option.filter_eq_some_iff]

lemma Tracks.forget (h : Tracks t ks) {keep : κ → Bool} {ks' : List κ}
    (hkeep : ∀ k, keep k = true → k ∈ ks') : Tracks (forget t keep) ks' where
  distinct i j a b hi hj := by
    rw [SlotTable.forget, Option.filter_eq_some_iff] at hi hj
    exact h.distinct i j a b hi.1 hj.1
  mem i a hi := by
    rw [SlotTable.forget, Option.filter_eq_some_iff] at hi
    exact hkeep _ hi.2

/-! ### Recording -/

/-- There is a free slot for a key that has none yet. -/
lemma Tracks.exists_free [DecidableEq κ] (h : Tracks t ks) (hlen : ks.length ≤ n) (hk : k ∈ ks)
    (hno : ∀ v, ¬ Has t k v) : ∃ i, t i = none := by
  by_contra hall
  rw [not_exists] at hall
  choose e he using fun i => Option.ne_none_iff_exists'.mp (hall i)
  -- the keys of the slots are `n` different ones, and `k` is not among them
  have hinj : Function.Injective fun i => (e i).1 :=
    fun i j hij => h.distinct i j _ _ (he i) (he j) hij
  have hsub : Finset.univ.image (fun i => (e i).1) ⊆ ks.toFinset.erase k := by
    intro x hx
    obtain ⟨i, -, rfl⟩ := Finset.mem_image.mp hx
    refine Finset.mem_erase.mpr ⟨fun heq => hno (e i).2 ⟨i, ?_⟩, ?_⟩
    · rw [he i, ← heq]
    · exact List.mem_toFinset.mpr (h.mem i _ (he i))
  have hcard := Finset.card_le_card hsub
  rw [Finset.card_image_of_injective _ hinj, Finset.card_univ, Fintype.card_fin,
    Finset.card_erase_of_mem (List.mem_toFinset.mpr hk)] at hcard
  have hle := List.toFinset_card_le ks
  have hpos := Finset.card_pos.mpr ⟨k, List.mem_toFinset.mpr hk⟩
  omega

/-- What the loop over the slots finds: the key, or else a free slot, if there is one. -/
lemma scan_spec [DecidableEq κ] (t : Table n κ ν) (k : κ) (is : List (Fin n))
    (free : Option (Fin n)) (hfree : ∀ i, free = some i → t i = none) :
    (∃ i v, scan t k is free = .inl i ∧ t i = some (k, v)) ∨
      (∀ i ∈ is, ∀ v, t i ≠ some (k, v)) ∧
        ((∃ i, scan t k is free = .inr (some i) ∧ t i = none) ∨
          scan t k is free = .inr none ∧ free = none ∧ ∀ i ∈ is, t i ≠ none) := by
  induction is generalizing free with
  | nil =>
    refine .inr ⟨by simp, ?_⟩
    cases free with
    | none => exact .inr ⟨rfl, rfl, by simp⟩
    | some i => exact .inl ⟨i, rfl, hfree i rfl⟩
  | cons i is ih =>
    rw [scan]
    split_ifs with hkey hnone
    · obtain ⟨⟨k', v⟩, hi, rfl⟩ := Option.map_eq_some_iff.mp hkey
      exact .inl ⟨i, v, rfl, hi⟩
    all_goals have hi : ∀ v, t i ≠ some (k, v) := fun v hv => hkey (by rw [hv]; rfl)
    · -- slot `i` is the first free one
      obtain ⟨-, hi'⟩ := Bool.and_eq_true_iff.mp hnone
      obtain h | ⟨hno, h | ⟨-, h, -⟩⟩ := ih (some i) (by simpa using hi')
      · exact .inl h
      · exact .inr ⟨List.forall_mem_cons.mpr ⟨hi, hno⟩, .inl h⟩
      · cases h
    · obtain h | ⟨hno, h | ⟨h, rfl, hfull⟩⟩ := ih free hfree
      · exact .inl h
      · exact .inr ⟨List.forall_mem_cons.mpr ⟨hi, hno⟩, .inl h⟩
      · refine .inr ⟨List.forall_mem_cons.mpr ⟨hi, hno⟩, .inr ⟨h, rfl, ?_⟩⟩
        exact List.forall_mem_cons.mpr ⟨by simpa using hnone, hfull⟩

section

variable [DecidableEq κ]

lemma Tracks.find?_eq_some (h : Tracks t ks) : find? t k = some v ↔ Has t k v := by
  rw [find?]
  obtain ⟨i, w, hs, hi⟩ | ⟨hno, hs⟩ := scan_spec t k (List.finRange n) none (by simp)
  · rw [hs]
    simp only [hi, Option.map_some, Option.some.injEq]
    constructor
    · rintro rfl
      exact ⟨i, hi⟩
    · exact h.unique ⟨i, hi⟩
  · have hnot : ¬ Has t k v := fun ⟨i, hi⟩ => hno i (List.mem_finRange i) v hi
    obtain ⟨i, hs, -⟩ | ⟨hs, -⟩ := hs <;> simp [hs, hnot]

/-- A wanted key is recorded in a slot that was its own or that was free. -/
lemma Tracks.record_eq (h : Tracks t ks) (hlen : ks.length ≤ n) (hk : k ∈ ks) (v : ν) :
    ∃ i, record t k v = Function.update t i (some (k, v)) ∧
      ((∃ w, t i = some (k, w)) ∨ t i = none ∧ ∀ w, ¬ Has t k w) := by
  rw [record]
  obtain ⟨i, w, hs, hi⟩ | ⟨hno, hs⟩ := scan_spec t k (List.finRange n) none (by simp)
  · exact ⟨i, by rw [hs], .inl ⟨w, hi⟩⟩
  · have hnot : ∀ w, ¬ Has t k w := fun w ⟨i, hi⟩ => hno i (List.mem_finRange i) w hi
    obtain ⟨i, hs, hi⟩ | ⟨-, -, hfull⟩ := hs
    · exact ⟨i, by rw [hs], .inr ⟨hi, hnot⟩⟩
    · obtain ⟨i, hi⟩ := h.exists_free hlen hk hnot
      exact absurd hi (hfull i (List.mem_finRange i))

lemma Tracks.has_record (h : Tracks t ks) (hlen : ks.length ≤ n) (hk : k ∈ ks) :
    Has (record t k v) k' v' ↔ if k' = k then v' = v else Has t k' v' := by
  obtain ⟨i, heq, hi⟩ := h.record_eq hlen hk v
  rw [heq]
  split_ifs with hkk
  · subst hkk
    constructor
    · rintro ⟨j, hj⟩
      by_cases hij : j = i
      · subst hij
        rw [Function.update_self] at hj
        cases hj
        rfl
      · -- another slot with the key: then the loop found that one
        rw [Function.update_of_ne hij] at hj
        obtain ⟨w, hw⟩ | ⟨-, hno⟩ := hi
        · exact absurd (h.distinct j i _ _ hj hw rfl) hij
        · exact absurd ⟨j, hj⟩ (hno v')
    · rintro rfl
      exact ⟨i, Function.update_self ..⟩
  · constructor
    · rintro ⟨j, hj⟩
      by_cases hij : j = i
      · subst hij
        rw [Function.update_self] at hj
        cases hj
        exact absurd rfl hkk
      · exact ⟨j, by rwa [Function.update_of_ne hij] at hj⟩
    · rintro ⟨j, hj⟩
      have hij : j ≠ i := by
        rintro rfl
        obtain ⟨w, hw⟩ | ⟨hw, -⟩ := hi
        · cases hj.symm.trans hw
          exact hkk rfl
        · cases hj.symm.trans hw
      exact ⟨j, by rwa [Function.update_of_ne hij]⟩

lemma Tracks.record (h : Tracks t ks) (hlen : ks.length ≤ n) (hk : k ∈ ks) (v : ν) :
    Tracks (record t k v) ks := by
  obtain ⟨i, heq, hi⟩ := h.record_eq hlen hk v
  rw [heq]
  -- no other slot holds the key
  have hother : ∀ j a, j ≠ i → t j = some a → a.1 ≠ k := by
    rintro j ⟨_, w⟩ hij hj rfl
    obtain ⟨w', hw⟩ | ⟨-, hno⟩ := hi
    · exact hij (h.distinct j i _ _ hj hw rfl)
    · exact hno w ⟨j, hj⟩
  constructor
  · intro j l a b hj hl hab
    by_cases hji : j = i <;> by_cases hli : l = i
    · rw [hji, hli]
    · subst hji
      rw [Function.update_self] at hj
      rw [Function.update_of_ne hli] at hl
      cases hj
      exact absurd hab.symm (hother l b hli hl)
    · subst hli
      rw [Function.update_self] at hl
      rw [Function.update_of_ne hji] at hj
      cases hl
      exact absurd hab (hother j a hji hj)
    · rw [Function.update_of_ne hji] at hj
      rw [Function.update_of_ne hli] at hl
      exact h.distinct j l a b hj hl hab
  · intro j a hj
    by_cases hji : j = i
    · subst hji
      rw [Function.update_self] at hj
      cases hj
      exact hk
    · rw [Function.update_of_ne hji] at hj
      exact h.mem j a hj

end

/-! ### What a table remembers of a history -/

/-- Some step of the history is a `q`, and all steps after it are `p`. -/
def Since {α : Type*} (p q : α → Prop) (l : List α) : Prop :=
  ∃ pre a post, l = pre ++ a :: post ∧ q a ∧ ∀ b ∈ post, p b

lemma not_since_nil {α : Type*} {p q : α → Prop} : ¬ Since p q [] := by
  rintro ⟨pre, a, post, h, -⟩
  simp at h

lemma since_append_singleton {α : Type*} {p q : α → Prop} {l : List α} {a : α} :
    Since p q (l ++ [a]) ↔ q a ∨ p a ∧ Since p q l := by
  constructor
  · rintro ⟨pre, b, post, h, hq, hp⟩
    cases post using List.reverseRecOn with
    | nil =>
      obtain ⟨-, hb⟩ := List.append_inj' h rfl
      cases hb
      exact .inl hq
    | append_singleton post c =>
      rw [← List.cons_append, ← List.append_assoc] at h
      obtain ⟨rfl, hc⟩ := List.append_inj' h rfl
      cases hc
      exact .inr ⟨hp a (by simp), pre, b, post, rfl, hq, fun x hx => hp x (by simp [hx])⟩
  · rintro (hq | ⟨hp, pre, b, post, rfl, hq, hpost⟩)
    · exact ⟨l, a, [], rfl, hq, by simp⟩
    · refine ⟨pre, b, post ++ [a], by simp, hq, ?_⟩
      intro x hx
      obtain hx | hx := List.mem_append.mp hx
      · exact hpost x hx
      · rwa [List.mem_singleton.mp hx]

end SlotTable
