import Anticheat.Basic
import Anticheat.Lib.RingBuffer

/-!
# The event ring

`ac_emit`, `ac_drain_events`, `ac_peek_events` and `ac_commit_events`, each the body of one
`ac_ring_lock` critical section. `ac_dropped` is a 32-bit and `ac_ring_removed` a 64-bit counter;
both wrap.
-/

namespace Anticheat

/-- `AC_RING_SIZE` -/
def acRingSize : ℕ := 256

/-- `ac_ring[]` with `ac_ring_head`, `ac_ring_tail`, `ac_ring_count`, `ac_dropped` and
`ac_ring_removed`. -/
structure AcRing extends RingBuffer AcEvent where
  dropped : BitVec 32
  removed : BitVec 64

/-- The zero-filled static storage the module is loaded with. -/
def AcRing.init : AcRing where
  cell := fun _ => ⟨0, 0, "", .fork, ""⟩
  head := 0
  tail := 0
  count := 0
  dropped := 0
  removed := 0

/-- The event `ac_emit` stores for one call at clock reading `now`. -/
def AcEmit.toEvent (now : BitVec 64) (e : AcEmit) : AcEvent where
  ts := now
  pid := e.pid
  comm := strscpy acMaxComm e.comm
  type := e.type
  data := strscpy acEventData e.data

/-- `ac_emit`: a full ring first evicts its oldest entry. -/
def acEmit (now : BitVec 64) (e : AcEmit) (r : AcRing) : AcRing :=
  let r : AcRing :=
    if r.count ≥ acRingSize then
      { r with
        tail := (r.tail + 1) % acRingSize
        count := r.count - 1
        dropped := r.dropped + 1
        removed := r.removed + 1 }
    else r
  { r with
    cell := Function.update r.cell r.head (e.toEvent now)
    head := (r.head + 1) % acRingSize
    count := r.count + 1 }

/-- The loop of `ac_drain_events`. `room` is what is left in `out`, `none` when `out` is `NULL`;
the first argument bounds the iterations by `ac_ring_count`. -/
def drainLoop : ℕ → Option ℕ → AcRing → AcRing × List AcEvent
  | 0, _, r => (r, [])
  | k + 1, room, r =>
    if room = some 0 then (r, [])
    else
      let (r', evs) := drainLoop k (room.map (· - 1))
        { r with
          tail := (r.tail + 1) % acRingSize
          count := r.count - 1
          removed := r.removed + 1 }
      (r', r.cell r.tail :: evs)

/-- `ac_drain_events`: the new ring and, for a non-`NULL` `out`, what is stored there. -/
def acDrainEvents (out : Bool) (r : AcRing) : AcRing × List AcEvent :=
  drainLoop r.count (if out then some acMaxEvents else none) r

/-- What `ac_peek_events` stores in `out` and `removed_before`. -/
structure AcPeek where
  events : List AcEvent
  dropped : BitVec 32
  removedBefore : BitVec 64

/-- `ac_peek_events`: copy the oldest entries without removing them. -/
def acPeekEvents (r : AcRing) : AcPeek where
  events := RingBuffer.readFrom acRingSize r.cell (min r.count acMaxEvents) r.tail
  dropped := r.dropped
  removedBefore := r.removed

/-- How many entries `ac_commit_events` removes: those of its `n` that nobody removed since. -/
def acToRemove (n : ℕ) (removedBefore : BitVec 64) (r : AcRing) : ℕ :=
  let removedSince := (r.removed - removedBefore).toNat
  min (if removedSince ≥ n then 0 else n - removedSince) r.count

/-- `ac_commit_events` -/
def acCommitEvents (n : ℕ) (removedBefore : BitVec 64) (r : AcRing) : AcRing :=
  let toRemove := acToRemove n removedBefore r
  { r with
    tail := (r.tail + toRemove) % acRingSize
    count := r.count - toRemove
    removed := r.removed + BitVec.ofNat 64 toRemove }

end Anticheat
