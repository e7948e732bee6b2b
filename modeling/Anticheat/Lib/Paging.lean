import Mathlib.Data.List.Infix
import Mathlib.Data.List.Nodup

/-!
# Reading a list page by page

A list is read in pages of `n`, newest entry first, while it changes: entries come in at the front
and go out at the end. Every entry that stays gets on one of the pages, since it only ever moves
towards the end; it may get on two.
-/

namespace Paging

variable {α : Type*} {new l l' : List α} {r : α} {m n : ℕ}

/-- The page with number `j`. -/
def page (n j : ℕ) (l : List α) : List α := (l.drop (j * n)).take n

/-- From one time to the next, entries came in at the front and went out at the end. -/
def Drifts (l l' : List α) : Prop := ∃ new, (new ++ l).Nodup ∧ l' <+: new ++ l

/-- What is not among the first `m` entries is not among them later. -/
lemma Drifts.mem_drop (h : Drifts l l') (hr' : r ∈ l') (hr : r ∈ l.drop m) : r ∈ l'.drop m := by
  obtain ⟨new, hnd, hp⟩ := h
  obtain ⟨s, t, hst⟩ := List.append_of_mem hr
  -- `before` is what the entry has in front of it, at least `m` entries
  obtain ⟨before, hbefore⟩ : ∃ before, before = new ++ l.take m ++ s := ⟨_, rfl⟩
  have hall : new ++ l = before ++ r :: t := by
    rw [hbefore, List.append_assoc, List.append_assoc, ← hst, List.take_append_drop]
  have hlen : m ≤ before.length := by
    have hm : m < l.length := by
      by_contra hle
      rw [List.drop_of_length_le (not_lt.mp hle)] at hr
      cases hr
    rw [hbefore]
    simp only [List.length_append, List.length_take]
    omega
  rw [hall] at hnd hp
  have hnot : r ∉ before := fun hmem => List.disjoint_of_nodup_append hnd hmem List.mem_cons_self
  obtain ⟨rest, hrest⟩ : ∃ rest, l' = before ++ r :: rest := by
    obtain ⟨tail, htail⟩ := hp
    rcases List.append_eq_append_iff.mp htail with ⟨a, ha, -⟩ | ⟨a, ha, hb⟩
    · exact absurd (ha ▸ List.mem_append_left _ hr') hnot
    · cases a with
      | nil => exact absurd (by simpa [ha] using hr') hnot
      | cons x a =>
        obtain ⟨rfl, -⟩ := List.cons.inj hb
        exact ⟨a, ha⟩
  rw [hrest, List.drop_append_of_le_length hlen]
  exact List.mem_append_right _ List.mem_cons_self

lemma mem_page_or_mem_drop {j : ℕ} (h : r ∈ l.drop (j * n)) :
    r ∈ page n j l ∨ r ∈ l.drop ((j + 1) * n) := by
  rw [← List.take_append_drop n (l.drop (j * n)), List.mem_append, List.drop_drop] at h
  rwa [Nat.succ_mul]

/-- An entry that is there each time a page is read gets on one of them, if the last page has room
left. -/
theorem exists_mem_page {L : ℕ → List α} {k : ℕ} (hdrift : ∀ j < k, Drifts (L j) (L (j + 1)))
    (hr : ∀ j ≤ k, r ∈ L j) (hshort : (page n k (L k)).length < n) :
    ∃ j ≤ k, r ∈ page n j (L j) := by
  by_contra hnone
  have hlater : ∀ j ≤ k, r ∈ (L j).drop ((j + 1) * n) := by
    intro j
    induction j with
    | zero =>
      intro hj
      refine (mem_page_or_mem_drop (j := 0) ?_).resolve_left fun hp => hnone ⟨0, hj, hp⟩
      rw [Nat.zero_mul, List.drop_zero]
      exact hr 0 hj
    | succ j ih =>
      intro hj
      have hdrop := (hdrift j hj).mem_drop (hr _ hj) (ih (Nat.le_of_succ_le hj))
      exact (mem_page_or_mem_drop hdrop).resolve_left fun hp => hnone ⟨j + 1, hj, hp⟩
  -- but there is nothing after the last page
  have hlast := hlater k le_rfl
  have hpos := List.length_pos_of_mem hlast
  simp only [page, List.length_take, List.length_drop, Nat.succ_mul] at hshort hpos
  omega

end Paging
