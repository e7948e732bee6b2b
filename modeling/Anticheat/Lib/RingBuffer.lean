import Mathlib.Data.List.Basic
import Mathlib.Data.Nat.ModEq
import Mathlib.Logic.Function.Basic
import Mathlib.Tactic.Common

/-!
# Circular buffers

A circular buffer of capacity `n` keeps its elements in the `count` cells that follow `tail`,
wrapping at `n`. `contents` reads them off as a list; pushing and dropping from the front are
the list operations.
-/

/-- A circular buffer: cells, write index, read index and number of stored elements. -/
structure RingBuffer (α : Type*) where
  cell : ℕ → α
  head : ℕ
  tail : ℕ
  count : ℕ

namespace RingBuffer

variable {α : Type*} {n : ℕ}

/-- The stored elements, oldest first. -/
def contents (n : ℕ) (r : RingBuffer α) : List α :=
  (List.range r.count).map fun k => r.cell ((r.tail + k) % n)

/-- The indices are in range and `head` is `count` cells past `tail`. -/
structure Wf (n : ℕ) (r : RingBuffer α) : Prop where
  pos : 0 < n
  count_le : r.count ≤ n
  tail_lt : r.tail < n
  head_eq : r.head = (r.tail + r.count) % n

/-- Write one element at `head`. -/
def push (n : ℕ) (r : RingBuffer α) (x : α) : RingBuffer α where
  cell := Function.update r.cell r.head x
  head := (r.head + 1) % n
  tail := r.tail
  count := r.count + 1

/-- Forget the `k` oldest elements. -/
def dropFront (n k : ℕ) (r : RingBuffer α) : RingBuffer α where
  cell := r.cell
  head := r.head
  tail := (r.tail + k) % n
  count := r.count - k

@[simp] lemma length_contents (r : RingBuffer α) : (r.contents n).length = r.count := by
  simp [contents]

/-- Two offsets below the capacity name different cells. -/
lemma index_ne {t i j : ℕ} (hij : i < j) (hj : j < n) : (t + i) % n ≠ (t + j) % n := by
  intro h
  have hmod : i ≡ j [MOD n] := Nat.ModEq.add_left_cancel' t h
  exact hij.ne (hmod.eq_of_lt_of_lt (hij.trans hj) hj)

lemma Wf.push {r : RingBuffer α} (h : r.Wf n) (hc : r.count < n) (x : α) :
    (r.push n x).Wf n where
  pos := h.pos
  count_le := hc
  tail_lt := h.tail_lt
  head_eq := by
    simp only [RingBuffer.push]
    rw [h.head_eq, Nat.mod_add_mod, Nat.add_assoc]

lemma contents_push {r : RingBuffer α} (h : r.Wf n) (hc : r.count < n) (x : α) :
    (r.push n x).contents n = r.contents n ++ [x] := by
  simp only [contents, push, List.range_succ, List.map_append, List.map_cons, List.map_nil]
  congr 1
  · apply List.map_congr_left
    intro k hk
    have hne : (r.tail + k) % n ≠ r.head := by
      rw [h.head_eq]
      exact index_ne (List.mem_range.mp hk) hc
    simp [Function.update_of_ne hne]
  · simp [h.head_eq]

lemma Wf.dropFront {r : RingBuffer α} (h : r.Wf n) {k : ℕ} (hk : k ≤ r.count) :
    (r.dropFront n k).Wf n where
  pos := h.pos
  count_le := by
    have := h.count_le
    simp only [RingBuffer.dropFront]
    omega
  tail_lt := Nat.mod_lt _ h.pos
  head_eq := by
    simp only [RingBuffer.dropFront]
    rw [h.head_eq, Nat.mod_add_mod, Nat.add_assoc, Nat.add_sub_cancel' hk]

lemma contents_dropFront (r : RingBuffer α) (k : ℕ) :
    (r.dropFront n k).contents n = (r.contents n).drop k := by
  apply List.ext_getElem
  · simp [dropFront]
  · intro j _ _
    simp only [contents, dropFront, List.getElem_map, List.getElem_range, List.getElem_drop]
    rw [Nat.mod_add_mod, Nat.add_assoc]

/-- Reading `k` cells one after the other, starting at an index. -/
def readFrom (n : ℕ) (cell : ℕ → α) : ℕ → ℕ → List α
  | 0, _ => []
  | k + 1, idx => cell idx :: readFrom n cell k ((idx + 1) % n)

lemma readFrom_eq (cell : ℕ → α) (k idx : ℕ) (hidx : idx < n) :
    readFrom n cell k idx = (List.range k).map fun j => cell ((idx + j) % n) := by
  induction k generalizing idx with
  | zero => rfl
  | succ k ih =>
    have hn : 0 < n := by omega
    rw [readFrom, ih _ (Nat.mod_lt _ hn), List.range_succ_eq_map, List.map_cons, List.map_map]
    congr 1
    · rw [Nat.add_zero, Nat.mod_eq_of_lt hidx]
    · apply List.map_congr_left
      intro j _
      simp only [Function.comp_apply, Nat.mod_add_mod]
      congr 2
      omega

/-- Reading from `tail` lists the oldest elements. -/
lemma readFrom_tail {r : RingBuffer α} (h : r.Wf n) {k : ℕ} (hk : k ≤ r.count) :
    readFrom n r.cell k r.tail = (r.contents n).take k := by
  rw [readFrom_eq _ _ _ h.tail_lt, contents, ← List.map_take, List.take_range,
    Nat.min_eq_left hk]

end RingBuffer
