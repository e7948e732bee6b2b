import Anticheat.Ring.Basic

/-!
# The ring as a numbered queue

Number the emitted events from zero. At any time the ring holds a suffix of the emission
sequence, and `ac_ring_removed` is the number of its oldest entry modulo `2^64`.
-/

namespace Anticheat

variable {now : BitVec 64} {e : AcEmit} {r : AcRing} {es : List AcEvent}

/-- The ring stores exactly the last `ac_ring_count` of the emitted events `es`. -/
structure AcRing.Numbered (r : AcRing) (es : List AcEvent) : Prop where
  wf : r.toRingBuffer.Wf acRingSize
  count_le : r.count ≤ es.length
  contents : r.toRingBuffer.contents acRingSize = es.drop (es.length - r.count)
  removed : r.removed = BitVec.ofNat 64 (es.length - r.count)

lemma AcRing.numbered_init : AcRing.init.Numbered [] where
  wf := ⟨by decide, by decide, by decide, by decide⟩
  count_le := Nat.le_refl _
  contents := rfl
  removed := rfl

/-! ### Removing from the front -/

/-- Advance the tail over the `k` oldest entries, counting them as removed. -/
def AcRing.advance (k : ℕ) (r : AcRing) : AcRing :=
  { r with
    toRingBuffer := r.toRingBuffer.dropFront acRingSize k
    removed := r.removed + BitVec.ofNat 64 k }

@[simp] lemma AcRing.advance_count (k : ℕ) : (r.advance k).count = r.count - k := rfl

lemma AcRing.Numbered.advance (h : r.Numbered es) {k : ℕ} (hk : k ≤ r.count) :
    (r.advance k).Numbered es where
  wf := h.wf.dropFront hk
  count_le := by
    have := h.count_le
    simp only [AcRing.advance_count]
    omega
  contents := by
    have hc := h.count_le
    simp only [AcRing.advance, RingBuffer.contents_dropFront, h.contents, List.drop_drop]
    congr 1
    simp only [RingBuffer.dropFront]
    omega
  removed := by
    have hc := h.count_le
    have hsum : es.length - (r.count - k) = es.length - r.count + k := by omega
    rw [AcRing.advance_count, hsum, BitVec.ofNat_add, ← h.removed]
    rfl

lemma acCommitEvents_eq (n : ℕ) (rb : BitVec 64) (r : AcRing) :
    acCommitEvents n rb r = r.advance (acToRemove n rb r) := rfl

lemma acToRemove_le (n : ℕ) (rb : BitVec 64) (r : AcRing) : acToRemove n rb r ≤ r.count :=
  Nat.min_le_right _ _

lemma AcRing.Numbered.commit (h : r.Numbered es) (n : ℕ) (rb : BitVec 64) :
    (acCommitEvents n rb r).Numbered es :=
  h.advance (acToRemove_le n rb r)

/-- The drain loop without an output buffer removes as many entries as it is given. -/
lemma drainLoop_none (k : ℕ) (hr : r.tail < acRingSize) :
    (drainLoop k none r).1 = r.advance k := by
  induction k generalizing r with
  | zero =>
    simp [drainLoop, AcRing.advance, RingBuffer.dropFront, Nat.mod_eq_of_lt hr]
  | succ k ih =>
    have hlt : (r.tail + 1) % acRingSize < acRingSize := Nat.mod_lt _ (by decide)
    simp only [drainLoop, reduceCtorEq, if_false, Option.map_none]
    rw [ih hlt]
    have htail : r.tail + 1 + k = r.tail + (k + 1) := by omega
    have hcount : r.count - 1 - k = r.count - (k + 1) := by omega
    simp [AcRing.advance, RingBuffer.dropFront, htail, hcount, BitVec.ofNat_add, BitVec.add_assoc,
      BitVec.add_comm 1#64]

lemma acDrainEvents_null (h : r.Numbered es) : (acDrainEvents false r).1 = r.advance r.count := by
  simpa [acDrainEvents] using drainLoop_none r.count h.wf.tail_lt

/-! ### Emitting -/

/-- Store one more entry at the head. -/
def AcRing.append (r : AcRing) (ev : AcEvent) : AcRing :=
  { r with toRingBuffer := r.toRingBuffer.push acRingSize ev }

lemma AcRing.Numbered.append (h : r.Numbered es) (hc : r.count < acRingSize) (ev : AcEvent) :
    (r.append ev).Numbered (es ++ [ev]) := by
  have hle := h.count_le
  have hoff : (es ++ [ev]).length - (r.count + 1) = es.length - r.count := by
    simp
  refine ⟨h.wf.push hc ev, ?_, ?_, ?_⟩
  · simpa [AcRing.append, RingBuffer.push] using hle
  · have hcount : (r.append ev).count = r.count + 1 := rfl
    rw [hcount, hoff, List.drop_append_of_le_length (by omega), ← h.contents]
    exact RingBuffer.contents_push h.wf hc ev
  · simp only [AcRing.append, RingBuffer.push, hoff]
    exact h.removed

lemma acEmit_of_lt (h : r.count < acRingSize) :
    acEmit now e r = r.append (e.toEvent now) := by
  simp [acEmit, AcRing.append, RingBuffer.push, Nat.not_le.mpr h]

/-- On a full ring `ac_emit` evicts the oldest entry and counts it in `ac_dropped`. -/
lemma acEmit_of_full (h : r.count = acRingSize) :
    acEmit now e r = { (r.advance 1).append (e.toEvent now) with dropped := r.dropped + 1 } := by
  simp [acEmit, AcRing.append, AcRing.advance, RingBuffer.push, RingBuffer.dropFront, h]

lemma AcRing.Numbered.emit (h : r.Numbered es) :
    (acEmit now e r).Numbered (es ++ [e.toEvent now]) := by
  rcases h.wf.count_le.lt_or_eq with hlt | hfull
  · rw [acEmit_of_lt hlt]
    exact h.append hlt _
  · rw [acEmit_of_full hfull]
    have hpos : 1 ≤ r.count := by
      rw [hfull]
      decide
    have hadv := (h.advance hpos).append (by
      rw [AcRing.advance_count, hfull]
      decide) (e.toEvent now)
    exact ⟨hadv.wf, hadv.count_le, hadv.contents, hadv.removed⟩

lemma acEmit_count (h : r.Numbered es) :
    (acEmit now e r).count = min (r.count + 1) acRingSize := by
  have hle := h.wf.count_le
  rcases hle.lt_or_eq with hlt | hfull
  · rw [acEmit_of_lt hlt, Nat.min_eq_left hlt]
    rfl
  · rw [acEmit_of_full hfull]
    simp [AcRing.append, AcRing.advance, RingBuffer.push, RingBuffer.dropFront, hfull, acRingSize]

/-! ### Peeking -/

lemma acPeekEvents_events (h : r.Numbered es) :
    (acPeekEvents r).events
      = (es.drop (es.length - r.count)).take (min r.count acMaxEvents) := by
  simp only [acPeekEvents]
  rw [RingBuffer.readFrom_tail h.wf (Nat.min_le_left _ _), h.contents]

lemma length_acPeekEvents (h : r.Numbered es) :
    (acPeekEvents r).events.length = min r.count acMaxEvents := by
  have := h.count_le
  rw [acPeekEvents_events h, List.length_take, List.length_drop]
  omega

/-! ### The contents as a list -/

/-- An emit appends to the contents, of which a full ring first loses the oldest entry. -/
lemma contents_acEmit (h : r.Numbered es) :
    (acEmit now e r).toRingBuffer.contents acRingSize =
      (if acRingSize ≤ r.count then (r.toRingBuffer.contents acRingSize).tail
        else r.toRingBuffer.contents acRingSize) ++ [e.toEvent now] := by
  rcases h.wf.count_le.lt_or_eq with hlt | hfull
  · rw [acEmit_of_lt hlt, if_neg (Nat.not_le.mpr hlt)]
    exact RingBuffer.contents_push h.wf hlt _
  · have hpos : 1 ≤ r.count := by
      rw [hfull]
      decide
    rw [acEmit_of_full hfull, if_pos hfull.ge, ← List.drop_one, ← RingBuffer.contents_dropFront]
    refine RingBuffer.contents_push (h.wf.dropFront hpos) ?_ _
    simp only [RingBuffer.dropFront]
    omega

/-- A `GET_EVENTS` that nothing disturbs takes the oldest entries out. -/
lemma acPeekEvents_eq_take (h : r.Numbered es) : (acPeekEvents r).events =
    (r.toRingBuffer.contents acRingSize).take (min r.count acMaxEvents) := by
  rw [acPeekEvents_events h, h.contents]

lemma acCommitEvents_peek (h : r.Numbered es) :
    acCommitEvents (acPeekEvents r).events.length (acPeekEvents r).removedBefore r =
      r.advance (min r.count acMaxEvents) := by
  rw [acCommitEvents_eq, length_acPeekEvents h]
  congr 1
  have hzero : (r.removed - (acPeekEvents r).removedBefore).toNat = 0 := by
    simp [acPeekEvents]
  rw [acToRemove, hzero]
  split <;> omega

end Anticheat
