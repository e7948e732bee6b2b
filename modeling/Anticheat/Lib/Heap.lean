import Mathlib.Algebra.Order.Group.Nat
import Mathlib.Data.List.Nodup
import Mathlib.Data.List.Perm.Basic
import Mathlib.Tactic.Common

/-!
# Allocations

Allocations are numbered in the order they are made. Freeing one that is not live is noted.
`Owns` says that the live allocations are those of a given list, each of them once, and that none
was freed that was not live: with the list that a state refers to, there is no leak, no double
free and no dangling reference.
-/

structure Heap where
  live : List ℕ
  next : ℕ
  misfreed : Bool
  deriving DecidableEq, Repr

namespace Heap

def empty : Heap := ⟨[], 0, false⟩

/-- Allocate; the new allocation is `h.next`. -/
def alloc (h : Heap) : Heap := { h with live := h.next :: h.live, next := h.next + 1 }

/-- Free what a pointer refers to, which is nothing if it is null. -/
def free (h : Heap) : Option ℕ → Heap
  | none => h
  | some i => ⟨h.live.erase i, h.next, h.misfreed || !h.live.contains i⟩

/-- The live allocations are these. -/
structure Owns (h : Heap) (ids : List ℕ) : Prop where
  perm : h.live.Perm ids
  nodup : ids.Nodup
  lt : ∀ i ∈ ids, i < h.next
  fine : h.misfreed = false

variable {h : Heap} {ids ids' : List ℕ}

lemma owns_empty : Owns empty [] := ⟨.nil, List.nodup_nil, by simp, rfl⟩

namespace Owns

lemma congr (hown : Owns h ids) (hperm : ids.Perm ids') : Owns h ids' where
  perm := hown.perm.trans hperm
  nodup := hperm.nodup_iff.mp hown.nodup
  lt i hi := hown.lt i (hperm.mem_iff.mpr hi)
  fine := hown.fine

lemma alloc (hown : Owns h ids) : Owns h.alloc (h.next :: ids) where
  perm := hown.perm.cons _
  nodup := List.nodup_cons.mpr ⟨fun hmem => lt_irrefl _ (hown.lt _ hmem), hown.nodup⟩
  lt i hi := by
    rcases List.mem_cons.mp hi with rfl | hi
    · exact Nat.lt_succ_self _
    · exact Nat.lt_succ_of_lt (hown.lt i hi)
  fine := hown.fine

/-- Free what is first in the list. -/
lemma free {p : Option ℕ} (hown : Owns h (p.toList ++ ids)) : Owns (h.free p) ids := by
  cases p with
  | none => exact hown
  | some i =>
    have hperm : h.live.Perm (i :: ids) := hown.perm
    have hmem : i ∈ h.live := hperm.mem_iff.mpr List.mem_cons_self
    refine ⟨?_, (List.nodup_cons.mp hown.nodup).2, ?_, ?_⟩
    · simpa [Heap.free] using hperm.erase i
    · exact fun j hj => hown.lt j (List.mem_cons_of_mem _ hj)
    · simp [Heap.free, hown.fine, hmem]

end Owns

end Heap
