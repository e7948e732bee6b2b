import Mathlib.Algebra.Order.Group.Basic
import Mathlib.Data.List.Count
import Mathlib.Data.List.TakeWhile
import Mathlib.Tactic.Common

/-!
# Sliding windows over timestamps

Timestamps are recorded in the order of a clock that never runs backwards. One of them has expired
when a window's length has passed since. A queue that drops expired entries, at whatever times, is
compared with the full record. The subtraction may round, as long as it is monotone.
-/

namespace SlidingWindow

variable {T : Type*} [LinearOrder T] [Sub T]

/-- A subtraction that respects the order on both sides. -/
structure MonotoneSub (T : Type*) [LinearOrder T] [Sub T] : Prop where
  right : ∀ {a b : T} (c : T), a ≤ b → a - c ≤ b - c
  left : ∀ (a : T) {b c : T}, b ≤ c → a - c ≤ a - b

/-- At time `now` the window since `t` is over. -/
def expired (window now t : T) : Bool := window ≤ now - t

/-- The queue `q` is what is left at time `now` of the record `r` after expired entries were dropped
from its front. -/
def Tracks (window now : T) (r q : List T) : Prop :=
  ∃ dropped, r = dropped ++ q ∧ ∀ t ∈ dropped, expired window now t

variable {window now now' : T} {r q : List T}

lemma expired_of_le (hsub : MonotoneSub T) (hle : now ≤ now') {t : T}
    (h : expired window now t) : expired window now' t := by
  simp only [expired, decide_eq_true_eq] at h ⊢
  exact h.trans (hsub.right t hle)

lemma expired_of_earlier (hsub : MonotoneSub T) {s t : T} (hst : s ≤ t)
    (h : expired window now t) : expired window now s := by
  simp only [expired, decide_eq_true_eq] at h ⊢
  exact h.trans (hsub.left now hst)

namespace Tracks

lemma nil : Tracks window now [] [] := ⟨[], rfl, nofun⟩

lemma mono (hsub : MonotoneSub T) (hle : now ≤ now') (h : Tracks window now r q) :
    Tracks window now' r q := by
  obtain ⟨d, rfl, hd⟩ := h
  exact ⟨d, rfl, fun t ht => expired_of_le hsub hle (hd t ht)⟩

lemma concat (h : Tracks window now r q) (t : T) : Tracks window now (r ++ [t]) (q ++ [t]) := by
  obtain ⟨d, rfl, hd⟩ := h
  exact ⟨d, List.append_assoc _ _ _, hd⟩

lemma dropWhile (h : Tracks window now r q) :
    Tracks window now r (q.dropWhile (expired window now)) := by
  obtain ⟨d, rfl, hd⟩ := h
  refine ⟨d ++ q.takeWhile (expired window now), ?_, ?_⟩
  · rw [List.append_assoc, List.takeWhile_append_dropWhile]
  · intro t ht
    rcases List.mem_append.mp ht with ht | ht
    · exact hd t ht
    · exact List.mem_takeWhile_imp ht

/-- A queue whose newest entry has expired may be dropped as a whole. -/
lemma drop_all (hsub : MonotoneSub T) (h : Tracks window now r q) (hr : r.Pairwise (· ≤ ·))
    (hlast : ∀ t ∈ q.getLast?, expired window now t) : Tracks window now r [] := by
  obtain ⟨d, rfl, hd⟩ := h
  refine ⟨d ++ q, (List.append_nil _).symm, fun t ht => ?_⟩
  rcases List.mem_append.mp ht with ht | ht
  · exact hd t ht
  · obtain ⟨p, b, rfl⟩ := List.eq_nil_or_concat q |>.resolve_left (List.ne_nil_of_mem ht)
    have hb : expired window now b := hlast b (by simp)
    rw [List.concat_eq_append] at ht
    rcases List.mem_append.mp ht with ht | ht
    · refine expired_of_earlier hsub ?_ hb
      have hq := (List.pairwise_append.mp hr).2.1
      rw [List.concat_eq_append] at hq
      exact (List.pairwise_append.mp hq).2.2 t ht b (List.mem_singleton_self b)
    · rw [List.mem_singleton.mp ht]
      exact hb

/-- What is left after the expired entries are dropped from the front is the part of the record
within the window. -/
lemma countP_eq_length (hsub : MonotoneSub T) (h : Tracks window now r q)
    (hr : r.Pairwise (· ≤ ·)) :
    r.countP (fun t => !expired window now t) = (q.dropWhile (expired window now)).length := by
  obtain ⟨d, hrd, hd⟩ := h.dropWhile
  have hlive : ∀ t ∈ q.dropWhile (expired window now), !expired window now t := by
    -- the entry in front has not expired, and the others are later
    have hsorted : (q.dropWhile (expired window now)).Pairwise (· ≤ ·) := by
      rw [hrd] at hr
      exact (List.pairwise_append.mp hr).2.1
    have hhead := List.head?_dropWhile_not (expired window now) q
    cases hq : q.dropWhile (expired window now) with
    | nil => nofun
    | cons a l =>
      rw [hq] at hhead hsorted
      have ha : expired window now a = false := hhead
      intro t ht
      rcases List.mem_cons.mp ht with rfl | ht
      · simp [ha]
      · by_contra hexp
        have hat := expired_of_earlier hsub (List.rel_of_pairwise_cons hsorted ht)
          (by simpa using hexp)
        exact absurd hat (by simp [ha])
  rw [hrd, List.countP_append, List.countP_eq_zero.mpr (by simpa using hd), Nat.zero_add,
    List.countP_eq_length.mpr hlive]

end Tracks

end SlidingWindow
