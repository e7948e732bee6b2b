import Anticheat.Lib.Rounding
import Anticheat.Lib.SlidingWindow
import Mathlib.Algebra.Order.Group.Int
import Mathlib.Data.List.AList

/-!
# The rate limiter of the server

`RateLimiter` of `ac_server.py`, which bounds the requests of each source address in a sliding
window. Its table is a dictionary in the order in which the keys were last seen, here with the key
seen last in front. The clock is any ordered type with a subtraction; that of the server is
`time.monotonic`, whose subtraction rounds.
-/

namespace Anticheat.Server

open SlidingWindow

/-- One call of `allow`: the clock reading it takes and the key it is made for. -/
structure Call (K T : Type*) where
  now : T
  key : K
  deriving DecidableEq, Repr

/-- The limiter; the constructor refuses a cap of no keys. -/
structure RateLimiter (K T : Type*) where
  limit : ℕ
  window : T
  maxKeys : ℕ
  maxKeys_pos : 0 < maxKeys
  /-- For each key the times of its accepted calls, the key seen last in front. -/
  hits : AList fun _ : K => List T
  lastPrune : T

namespace RateLimiter

variable {K T : Type*}

/-- `__init__` -/
def new (limit : ℕ) (window : T) (maxKeys : ℕ) (hkeys : 0 < maxKeys) (now : T) :
    RateLimiter K T :=
  ⟨limit, window, maxKeys, hkeys, ∅, now⟩

/-- The number of keys in the table. -/
def size (rl : RateLimiter K T) : ℕ := rl.hits.entries.length

/-- The table without the key that was not seen for the longest time. -/
def evictOldest (hits : AList fun _ : K => List T) : AList fun _ : K => List T :=
  ⟨hits.entries.dropLast, hits.nodupKeys.sublist (List.dropLast_sublist _)⟩

/-- The table has room and no deque is over the limit. -/
structure Bounded (rl : RateLimiter K T) : Prop where
  size_le : rl.size ≤ rl.maxKeys
  length_le : ∀ e ∈ rl.hits.entries, e.2.length ≤ rl.limit

lemma bounded_new (limit : ℕ) (window : T) (maxKeys : ℕ) (hkeys : 0 < maxKeys) (now : T) :
    (new limit window maxKeys hkeys now : RateLimiter K T).Bounded :=
  ⟨Nat.zero_le _, nofun⟩

/-! ### Entering a key -/

section Table

variable [DecidableEq K]

/-- Whether a call for the key finds the table full. -/
def evicts (rl : RateLimiter K T) (key : K) : Bool :=
  (rl.hits.lookup key).isNone && rl.maxKeys ≤ rl.size

/-- The times recorded for a key. -/
def deque (rl : RateLimiter K T) (key : K) : List T := (rl.hits.lookup key).getD []

/-- The table that a call enters its key into. -/
def room (rl : RateLimiter K T) (key : K) : AList fun _ : K => List T :=
  if rl.evicts key then evictOldest rl.hits else rl.hits

/-- The table in which the key is the one seen last, with the times `dq`. -/
def enter (rl : RateLimiter K T) (key : K) (dq : List T) : RateLimiter K T :=
  { rl with hits := (rl.room key).insert key dq }

variable {rl : RateLimiter K T}

lemma room_sublist (rl : RateLimiter K T) (key : K) :
    (rl.room key).entries.Sublist rl.hits.entries := by
  unfold room
  split_ifs
  · exact List.dropLast_sublist _
  · exact List.Sublist.refl _

lemma length_kerase_lt {l : List (Sigma fun _ : K => List T)} {key : K} (h : key ∈ l.keys) :
    (l.kerase key).length < l.length := by
  obtain ⟨b, l₁, l₂, -, hl, herase⟩ := List.exists_of_kerase h
  rw [herase, hl]
  simp

lemma Bounded.size_enter_le (h : rl.Bounded) (key : K) (dq : List T) :
    (rl.enter key dq).size ≤ rl.maxKeys := by
  have hcons : (rl.enter key dq).size = ((rl.room key).entries.kerase key).length + 1 := by
    rw [size, enter, AList.entries_insert, List.length_cons]
  have hsize : rl.hits.entries.length ≤ rl.maxKeys := h.size_le
  have herase := (List.kerase_sublist key (rl.room key).entries).length_le
  have hpos := rl.maxKeys_pos
  rw [hcons]
  rcases hl : rl.hits.lookup key with - | dq'
  · rcases lt_or_ge rl.hits.entries.length rl.maxKeys with hlt | hge
    · have hroom := (rl.room_sublist key).length_le
      omega
    · -- the table is full: one key goes before this one comes
      have hev : rl.evicts key = true := by simp [evicts, hl, size, hge]
      have hdrop : (rl.room key).entries.length = rl.hits.entries.length - 1 := by
        rw [room, if_pos hev, evictOldest, List.length_dropLast]
      omega
  · -- the key only moves
    have hroom : rl.room key = rl.hits := by simp [room, evicts, hl]
    have hmem : key ∈ rl.hits.entries.keys :=
      List.dlookup_isSome.mp (by simp [show rl.hits.entries.dlookup key = some dq' from hl])
    have hlt := length_kerase_lt hmem
    rw [hroom]
    omega

lemma Bounded.length_deque_le (h : rl.Bounded) (key : K) : (rl.deque key).length ≤ rl.limit := by
  rw [deque]
  cases hl : rl.hits.lookup key with
  | none => exact Nat.zero_le _
  | some dq => exact h.length_le ⟨key, dq⟩ (AList.mem_lookup_iff.mp hl)

lemma Bounded.enter (h : rl.Bounded) (key : K) {dq : List T} (hdq : dq.length ≤ rl.limit) :
    (rl.enter key dq).Bounded := by
  refine ⟨h.size_enter_le key dq, fun e he => ?_⟩
  rw [RateLimiter.enter, AList.entries_insert] at he
  rcases List.mem_cons.mp he with rfl | he
  · exact hdq
  · exact h.length_le e ((rl.room_sublist key).subset ((List.kerase_sublist _ _).subset he))

@[simp] lemma deque_enter_self (rl : RateLimiter K T) (key : K) (dq : List T) :
    (rl.enter key dq).deque key = dq := by
  rw [deque, enter, AList.lookup_insert]
  rfl

lemma deque_enter_of_ne {key k : K} (hk : k ≠ key) (hev : rl.evicts key = false) (dq : List T) :
    (rl.enter key dq).deque k = rl.deque k := by
  rw [deque, enter, AList.lookup_insert_ne hk, room, hev]
  rfl

end Table

/-! ### Pruning -/

section Prune

variable [LinearOrder T] [Sub T]

/-- `_prune`: drop the keys without a time in the window. -/
def prune (rl : RateLimiter K T) (now : T) : RateLimiter K T :=
  { rl with
    hits := ⟨rl.hits.entries.filter fun e => !(e.2.getLast?.all (expired rl.window now)),
      rl.hits.nodupKeys.sublist List.filter_sublist⟩
    lastPrune := now }

/-- The pruning at the end of a call, which happens about once per window. -/
def pruneIfDue (rl : RateLimiter K T) (now : T) : RateLimiter K T :=
  if expired rl.window now rl.lastPrune then rl.prune now else rl

variable {rl : RateLimiter K T}

@[simp] lemma pruneIfDue_limit (rl : RateLimiter K T) (now : T) :
    (rl.pruneIfDue now).limit = rl.limit := by
  unfold pruneIfDue
  split_ifs <;> rfl

@[simp] lemma pruneIfDue_maxKeys (rl : RateLimiter K T) (now : T) :
    (rl.pruneIfDue now).maxKeys = rl.maxKeys := by
  unfold pruneIfDue
  split_ifs <;> rfl

@[simp] lemma pruneIfDue_window (rl : RateLimiter K T) (now : T) :
    (rl.pruneIfDue now).window = rl.window := by
  unfold pruneIfDue
  split_ifs <;> rfl

lemma Bounded.pruneIfDue (h : rl.Bounded) (now : T) : (rl.pruneIfDue now).Bounded := by
  have hsub : (rl.pruneIfDue now).hits.entries.Sublist rl.hits.entries := by
    unfold RateLimiter.pruneIfDue
    split_ifs
    · exact List.filter_sublist
    · exact List.Sublist.refl _
  refine ⟨?_, fun e he => ?_⟩
  · rw [pruneIfDue_maxKeys]
    exact hsub.length_le.trans h.size_le
  · rw [pruneIfDue_limit]
    exact h.length_le e (hsub.subset he)

/-- Pruning leaves a deque as it is, or drops one whose newest entry has expired. -/
lemma deque_pruneIfDue [DecidableEq K] (rl : RateLimiter K T) (now : T) (k : K) :
    (rl.pruneIfDue now).deque k = rl.deque k ∨
      (rl.pruneIfDue now).deque k = [] ∧
        ∀ t ∈ (rl.deque k).getLast?, expired rl.window now t := by
  unfold pruneIfDue
  split_ifs
  · cases hl : (rl.prune now).hits.lookup k with
    | some dq =>
      have hmem := List.mem_of_mem_filter (AList.mem_lookup_iff.mp hl)
      have hold : rl.hits.lookup k = some dq := AList.mem_lookup_iff.mpr hmem
      exact .inl (by rw [deque, deque, hl, hold])
    | none =>
      refine .inr ⟨by rw [deque, hl]; rfl, fun t ht => ?_⟩
      cases hold : rl.hits.lookup k with
      | none => simp [deque, hold] at ht
      | some dq =>
        by_contra hlive
        have hdq : dq.getLast? = some t := by simpa [deque, hold] using ht
        have hkept : ⟨k, dq⟩ ∈ (rl.prune now).hits.entries :=
          List.mem_filter.mpr ⟨AList.mem_lookup_iff.mp hold, by simpa [hdq] using hlive⟩
        have hsome := AList.mem_lookup_iff.mpr hkept
        rw [hl] at hsome
        cases hsome
  · exact .inl rfl

end Prune

/-! ### Calls -/

section Calls

variable [DecidableEq K] [LinearOrder T] [Sub T]

/-- `allow` -/
def allow (rl : RateLimiter K T) (c : Call K T) : RateLimiter K T × Bool :=
  let dq := (rl.deque c.key).dropWhile (expired rl.window c.now)
  if rl.limit ≤ dq.length then ((rl.enter c.key dq).pruneIfDue c.now, false)
  else ((rl.enter c.key (dq ++ [c.now])).pruneIfDue c.now, true)

/-- The limiter after a sequence of calls. -/
def run (rl : RateLimiter K T) : List (Call K T) → RateLimiter K T
  | [] => rl
  | c :: cs => (rl.allow c).1.run cs

/-- The answers to a sequence of calls. -/
def answers (rl : RateLimiter K T) : List (Call K T) → List Bool
  | [] => []
  | c :: cs => (rl.allow c).2 :: (rl.allow c).1.answers cs

/-- No call of the sequence evicts a key. -/
def NoEviction (rl : RateLimiter K T) : List (Call K T) → Prop
  | [] => True
  | c :: cs => rl.evicts c.key = false ∧ (rl.allow c).1.NoEviction cs

variable {rl : RateLimiter K T}

lemma Bounded.allow (h : rl.Bounded) (c : Call K T) : (rl.allow c).1.Bounded := by
  have hdrop := (List.dropWhile_sublist (expired rl.window c.now)
    (l := rl.deque c.key)).length_le
  have hdeque := h.length_deque_le c.key
  unfold RateLimiter.allow
  dsimp only
  split_ifs with hlim
  · exact (h.enter c.key (hdrop.trans hdeque)).pruneIfDue c.now
  · refine (h.enter c.key ?_).pruneIfDue c.now
    rw [List.length_append, List.length_singleton]
    omega

lemma Bounded.run (h : rl.Bounded) (cs : List (Call K T)) : (rl.run cs).Bounded := by
  induction cs generalizing rl with
  | nil => exact h
  | cons c cs ih => exact ih (h.allow c)

lemma allow_settings (rl : RateLimiter K T) (c : Call K T) :
    (rl.allow c).1.limit = rl.limit ∧ (rl.allow c).1.window = rl.window ∧
      (rl.allow c).1.maxKeys = rl.maxKeys := by
  unfold allow
  dsimp only
  split_ifs <;> simp [enter]

lemma run_settings (rl : RateLimiter K T) (cs : List (Call K T)) :
    (rl.run cs).limit = rl.limit ∧ (rl.run cs).maxKeys = rl.maxKeys := by
  induction cs generalizing rl with
  | nil => exact ⟨rfl, rfl⟩
  | cons c cs ih =>
    obtain ⟨hlim, -, hkeys⟩ := rl.allow_settings c
    rw [run, (ih _).1, (ih _).2, hlim, hkeys]
    exact ⟨rfl, rfl⟩

/-! ### The reference

It remembers every accepted call and counts those for the key that are in the window. -/

/-- Whether the reference accepts a call after the accepted calls `accepted`; `inWindow t s` says
whether the time `s` counts at the time `t`. -/
def referenceAllows (limit : ℕ) (inWindow : T → T → Bool) (accepted : List (Call K T))
    (c : Call K T) : Bool :=
  accepted.countP (fun a => a.key = c.key ∧ inWindow c.now a.now) < limit

/-- The answers of the reference to a sequence of calls. -/
def referenceAnswers (limit : ℕ) (inWindow : T → T → Bool) (accepted : List (Call K T)) :
    List (Call K T) → List Bool
  | [] => []
  | c :: cs =>
    if referenceAllows limit inWindow accepted c then
      true :: referenceAnswers limit inWindow (accepted ++ [c]) cs
    else false :: referenceAnswers limit inWindow accepted cs

/-- Less than a window has passed since, by the subtraction of the clock. -/
def withinSpan (window t s : T) : Bool := s ≤ t && t - s < window

/-- The time is in the interval from `t - window` to `t`, open on the left. -/
def withinInterval (window t s : T) : Bool := t - window < s && s ≤ t

/-- The times of the accepted calls for a key. -/
def times (accepted : List (Call K T)) (k : K) : List T :=
  (accepted.filter (·.key = k)).map Call.now

/-- At time `last`, what the table has for each key is what the window needs of the full record. -/
structure Tracked (rl : RateLimiter K T) (last : T) (accepted : List (Call K T)) : Prop where
  tracks : ∀ k, Tracks rl.window last (times accepted k) (rl.deque k)
  sorted : accepted.Pairwise (·.now ≤ ·.now)
  le_last : ∀ a ∈ accepted, a.now ≤ last

namespace Tracked

variable {last now : T} {accepted : List (Call K T)}

lemma sorted_times (h : Tracked rl last accepted) (k : K) :
    (times accepted k).Pairwise (· ≤ ·) :=
  List.pairwise_map.mpr (h.sorted.filter _)

lemma mono (hsub : MonotoneSub T) (h : Tracked rl last accepted) (hle : last ≤ now) :
    Tracked rl now accepted :=
  ⟨fun k => (h.tracks k).mono hsub hle, h.sorted, fun a ha => (h.le_last a ha).trans hle⟩

lemma pruneIfDue (hsub : MonotoneSub T) (h : Tracked rl now accepted) :
    Tracked (rl.pruneIfDue now) now accepted := by
  refine ⟨fun k => ?_, h.sorted, h.le_last⟩
  rw [pruneIfDue_window]
  rcases rl.deque_pruneIfDue now k with heq | ⟨heq, hlast⟩
  · rw [heq]
    exact h.tracks k
  · rw [heq]
    exact (h.tracks k).drop_all hsub (h.sorted_times k) hlast

/-- Entering a key with a deque that tracks its record, with or without the call just made. -/
lemma enter {c : Call K T} {accepted' : List (Call K T)} {dq : List T}
    (h : Tracked rl c.now accepted) (hev : rl.evicts c.key = false)
    (hacc : accepted' = accepted ∨ accepted' = accepted ++ [c])
    (hdq : Tracks rl.window c.now (times accepted' c.key) dq) :
    Tracked (rl.enter c.key dq) c.now accepted' := by
  refine ⟨fun k => ?_, ?_, ?_⟩
  · by_cases hk : k = c.key
    · subst hk
      rw [deque_enter_self]
      exact hdq
    · have htimes : times accepted' k = times accepted k := by
        rcases hacc with rfl | rfl
        · rfl
        · simp [times, List.filter_append, Ne.symm hk]
      rw [deque_enter_of_ne hk hev, htimes]
      exact h.tracks k
  · rcases hacc with rfl | rfl
    · exact h.sorted
    · refine List.pairwise_append.mpr ⟨h.sorted, List.pairwise_singleton _ _, ?_⟩
      intro a ha b hb
      rw [List.mem_singleton.mp hb]
      exact h.le_last a ha
  · rcases hacc with rfl | rfl
    · exact h.le_last
    · intro a ha
      rcases List.mem_append.mp ha with ha | ha
      · exact h.le_last a ha
      · rw [List.mem_singleton.mp ha]

lemma new (limit : ℕ) (window : T) (maxKeys : ℕ) (hkeys : 0 < maxKeys) (t last : T) :
    Tracked (RateLimiter.new limit window maxKeys hkeys t : RateLimiter K T) last [] :=
  ⟨fun _ => .nil, .nil, nofun⟩

/-- What is left of the deque of a key counts the accepted calls in the window. -/
lemma countP_eq (hsub : MonotoneSub T) {c : Call K T} (h : Tracked rl c.now accepted) :
    accepted.countP (fun a => a.key = c.key ∧ withinSpan rl.window c.now a.now) =
      ((rl.deque c.key).dropWhile (expired rl.window c.now)).length := by
  rw [← (h.tracks c.key).countP_eq_length hsub (h.sorted_times c.key), times,
    List.countP_map, List.countP_filter]
  refine List.countP_congr fun a ha => ?_
  have hle := h.le_last a ha
  simp only [Function.comp_apply, expired, withinSpan, Bool.and_eq_true, Bool.not_eq_true',
    decide_eq_true_eq, decide_eq_false_iff_not, hle, true_and, not_le]
  exact and_comm

lemma allow_eq (hsub : MonotoneSub T) {c : Call K T} (h : Tracked rl last accepted)
    (hle : last ≤ c.now) (hev : rl.evicts c.key = false) :
    (rl.allow c).2 = referenceAllows rl.limit (withinSpan rl.window) accepted c ∧
      Tracked (rl.allow c).1 c.now
        (if referenceAllows rl.limit (withinSpan rl.window) accepted c then accepted ++ [c]
          else accepted) := by
  have hnow := h.mono hsub hle
  have hdrop := (hnow.tracks c.key).dropWhile
  have hcount := hnow.countP_eq hsub
  unfold allow
  dsimp only
  split_ifs with hlim href href
  · simp only [referenceAllows, hcount, decide_eq_true_eq] at href
    omega
  · refine ⟨by simpa using href, ?_⟩
    exact (hnow.enter hev (.inl rfl) hdrop).pruneIfDue hsub
  · refine ⟨href.symm, ?_⟩
    refine (hnow.enter hev (.inr rfl) ?_).pruneIfDue hsub
    have htimes : times (accepted ++ [c]) c.key = times accepted c.key ++ [c.now] := by
      simp [times, List.filter_append]
    rw [htimes]
    exact hdrop.concat c.now
  · simp only [referenceAllows, hcount, decide_eq_true_eq] at href
    omega

lemma answers_eq (hsub : MonotoneSub T) {cs : List (Call K T)} (h : Tracked rl last accepted)
    (hmono : (cs.map Call.now).Pairwise (· ≤ ·)) (hlast : ∀ c ∈ cs, last ≤ c.now)
    (hev : rl.NoEviction cs) :
    rl.answers cs = referenceAnswers rl.limit (withinSpan rl.window) accepted cs := by
  induction cs generalizing rl last accepted with
  | nil => rfl
  | cons c cs ih =>
    obtain ⟨hans, hnext⟩ := h.allow_eq hsub (hlast c List.mem_cons_self) hev.1
    obtain ⟨hlim, hwin, -⟩ := rl.allow_settings c
    rw [List.map_cons, List.pairwise_cons] at hmono
    have hrest := ih hnext hmono.2 (fun b hb => hmono.1 _ (List.mem_map_of_mem hb)) hev.2
    rw [answers, referenceAnswers, hrest, hans, hlim, hwin]
    split_ifs with href <;> simp [href]

/-- From the start of a limiter on. -/
lemma answers_new (hsub : MonotoneSub T) (limit maxKeys : ℕ) (hkeys : 0 < maxKeys)
    (window start : T) {calls : List (Call K T)} (hmono : (calls.map Call.now).Pairwise (· ≤ ·))
    (hev : (RateLimiter.new limit window maxKeys hkeys start).NoEviction calls) :
    (RateLimiter.new limit window maxKeys hkeys start).answers calls =
      referenceAnswers limit (withinSpan window) [] calls := by
  cases calls with
  | nil => rfl
  | cons c cs =>
    refine (Tracked.new limit window maxKeys hkeys start c.now).answers_eq hsub hmono ?_ hev
    intro b hb
    rcases List.mem_cons.mp hb with rfl | hb
    · exact le_rfl
    · exact List.rel_of_pairwise_cons hmono (List.mem_map_of_mem hb)

end Tracked

/-- After every sequence of calls at nondecreasing times the table is within both caps, and as long
as no key was evicted the answers are those of the reference. -/
theorem allow_refines_reference (hsub : MonotoneSub T) (limit maxKeys : ℕ) (hkeys : 0 < maxKeys)
    (window start : T) (calls : List (Call K T))
    (hmono : (calls.map Call.now).Pairwise (· ≤ ·)) :
    let rl : RateLimiter K T := new limit window maxKeys hkeys start
    (rl.run calls).size ≤ maxKeys ∧
      (∀ e ∈ (rl.run calls).hits.entries, e.2.length ≤ limit) ∧
      (rl.NoEviction calls →
        rl.answers calls = referenceAnswers limit (withinSpan window) [] calls) := by
  intro rl
  have hbounded := (bounded_new limit window maxKeys hkeys start : rl.Bounded).run calls
  obtain ⟨hlim, hmax⟩ := rl.run_settings calls
  exact ⟨hbounded.size_le.trans hmax.le, fun e he => (hbounded.length_le e he).trans hlim.le,
    Tracked.answers_new hsub limit maxKeys hkeys window start hmono⟩

end Calls

/-! ### The clock of the server -/

/-- The readings of `time.monotonic`, which are in binary64. -/
abbrev Seconds : Type := Rounding.Number 53

namespace Seconds

lemma monotoneSub : MonotoneSub Seconds :=
  ⟨fun c h => Rounding.Number.sub_le_sub_right (by decide) c h,
    fun a _ _ h => Rounding.Number.sub_le_sub_left (by decide) a h⟩

/-- A number of seconds with its bits after the point; the smallest one is `2 ^ -1074`. -/
def ofBits (c : ℕ) (bits : ℕ) (hc : c ≤ 2 ^ 53) : Seconds :=
  ⟨c * 2 ^ (1074 - bits), c, 1074 - bits, hc, rfl⟩

end Seconds

/-- Two calls at 31.35938757 and 91.35938757 seconds. -/
def minuteApart : List (Call ℕ Seconds) :=
  [⟨.ofBits 8826882885926185 48 (by decide), 7⟩, ⟨.ofBits 3214422686070693 45 (by decide), 7⟩]

/-- A window of a minute. -/
def minute : Seconds := .ofBits 60 0 (by decide)

theorem allow_refines_reference_minuteApart :
    (new 1 minute 2 Nat.two_pos (.ofBits 0 0 (by decide))).answers minuteApart =
      referenceAnswers 1 (withinSpan minute) [] minuteApart := by
  refine (allow_refines_reference Seconds.monotoneSub 1 2 Nat.two_pos minute _ minuteApart
    (by decide +kernel)).2.2 ?_
  exact ⟨by decide +kernel, by decide +kernel, trivial⟩

/-- The two calls are less than a minute apart, by one bit that their difference has no room for:
with one call a minute the second is accepted, although the first lies in the window. -/
theorem allow_not_reference :
    (minuteApart.map Call.now).Pairwise (· ≤ ·) ∧
      (new 1 minute 2 Nat.two_pos (.ofBits 0 0 (by decide))).NoEviction minuteApart ∧
      (new 1 minute 2 Nat.two_pos (.ofBits 0 0 (by decide))).answers minuteApart = [true, true] ∧
      referenceAnswers 1 (withinInterval minute.val) []
        (minuteApart.map fun c => (⟨c.now.val, c.key⟩ : Call ℕ ℤ)) = [true, false] :=
  ⟨by decide +kernel, ⟨by decide +kernel, by decide +kernel, trivial⟩, by decide +kernel,
    by decide +kernel⟩

end RateLimiter

end Anticheat.Server
