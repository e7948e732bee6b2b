import Anticheat.Lib.Linearized
import Anticheat.Lib.Run
import Mathlib.Data.List.Chain
import Mathlib.Order.Lattice

/-!
# The bound on connections

`BoundedThreadingMixIn`: the accept loop takes a slot of a semaphore for every connection without
waiting for one, and answers 503 if there is none. A slot is given back by the thread of the
connection, or by the accept loop if the thread cannot be started. The accept loop handles one
connection at a time; the threads run at any time.
-/

namespace Anticheat.Server

open Transition

variable {A T : Type*}

/-! ### The log of rejections -/

/-- `_overload_log_last` and `_overload_log_suppressed` -/
structure OverloadLog (T : Type*) where
  last : T
  suppressed : ℕ
  deriving DecidableEq, Repr

/-- A line that was written, and when: a connection was rejected, and so many before it. -/
structure OverloadLine (A T : Type*) where
  time : T
  clientAddress : A
  suppressed : ℕ
  deriving DecidableEq, Repr

def OverloadLine.text (repr : A → String) (maxConnections : ℕ) (l : OverloadLine A T) : String :=
  "ac_server: connection from " ++ repr l.clientAddress ++ " rejected: over --max-connections (" ++
    toString maxConnections ++ ")" ++
    (if l.suppressed ≠ 0 then " (+" ++ toString l.suppressed ++ " similar suppressed in last 5s)"
      else "") ++ "\n"

section Log

variable [LinearOrder T] [Sub T]

/-- `_log_overload_rejection`. `interval` is `OVERLOAD_LOG_INTERVAL_SEC`, `now` the reading of
`time.monotonic`. -/
def logOverloadRejection (interval now : T) (addr : A) (log : OverloadLog T) :
    OverloadLog T × Option (OverloadLine A T) :=
  if now - log.last < interval then ({ log with suppressed := log.suppressed + 1 }, none)
  else (⟨now, 0⟩, some ⟨now, addr, log.suppressed⟩)

end Log

/-! ### Connections -/

/-- Where a connection is. The accept loop has it up to `granted` and in `failed`. -/
inductive ConnPc where
  /-- in `process_request`, before the semaphore -/
  | accepted
  /-- there was no slot; before the log -/
  | refused
  /-- before the answer 503 and the close -/
  | rejecting
  /-- has a slot; before the thread is started -/
  | granted
  /-- the thread could not be started and the slot was given back; before the close -/
  | failed
  /-- in `finish_request` of its thread -/
  | running
  /-- after `shutdown_request` of its thread, before the slot is given back -/
  | ended
  | done
  deriving DecidableEq, Repr

namespace ConnPc

def slots : ConnPc → ℕ
  | .granted | .running | .ended => 1
  | _ => 0

/-- Whether there is a thread for the connection. -/
def threads : ConnPc → ℕ
  | .running | .ended => 1
  | _ => 0

/-- Whether the accept loop is busy with it. -/
def inLoop : ConnPc → ℕ
  | .accepted | .refused | .rejecting | .granted | .failed => 1
  | _ => 0

def closed : ConnPc → Bool
  | .ended | .done => true
  | _ => false

end ConnPc

structure Connection (A : Type*) where
  clientAddress : A
  pc : ConnPc
  deriving DecidableEq, Repr

/-- The server. `closes` are the connections closed so far, `rejections` is the number of those that
were rejected, and `lines` is what was written to the log. -/
structure Conns (A T : Type*) where
  semaphore : ℕ
  conns : List (Connection A)
  log : OverloadLog T
  lines : List (OverloadLine A T)
  closes : List ℕ
  rejections : ℕ

/-- `max_connections` slots; `zero` is the `0.0` that `_overload_log_last` starts with. -/
def Conns.init (maxConnections : ℕ) (zero : T) : Conns A T :=
  ⟨maxConnections, [], ⟨zero, 0⟩, [], [], 0⟩

inductive ConnAct (A T : Type*) where
  | accept (clientAddress : A)
  /-- the next step of a connection: the clock, and whether a thread can be started -/
  | step (i : ℕ) (now : T) (started : Bool)
  deriving DecidableEq, Repr

namespace Conns

variable (s : Conns A T)

def setPc (i : ℕ) (c : Connection A) (pc : ConnPc) : Conns A T :=
  { s with conns := s.conns.set i { c with pc := pc } }

def close (i : ℕ) : Conns A T := { s with closes := s.closes ++ [i] }

variable [LinearOrder T] [Sub T]

/-- The steps of `process_request`, `process_request_thread` and `_reject_overloaded`. -/
def advance (interval : T) (i : ℕ) (c : Connection A) (now : T) (started : Bool) :
    Option (Conns A T) :=
  match c.pc with
  | .accepted =>
    if s.semaphore = 0 then some (s.setPc i c .refused)
    else some { s.setPc i c .granted with semaphore := s.semaphore - 1 }
  | .refused =>
    let (log, line) := logOverloadRejection interval now c.clientAddress s.log
    some { s.setPc i c .rejecting with
      log := log
      lines := s.lines ++ line.toList
      rejections := s.rejections + 1 }
  | .rejecting => some ((s.setPc i c .done).close i)
  | .granted =>
    if started then some (s.setPc i c .running)
    else some { s.setPc i c .failed with semaphore := s.semaphore + 1 }
  | .failed => some ((s.setPc i c .done).close i)
  | .running => some ((s.setPc i c .ended).close i)
  | .ended => some { s.setPc i c .done with semaphore := s.semaphore + 1 }
  | .done => none

def step (interval : T) (s : Conns A T) : ConnAct A T → Option (Conns A T)
  | .accept addr =>
    if tally (fun c : Connection A => c.pc.inLoop) s.conns = 0 then
      some { s with conns := s.conns ++ [⟨addr, .accepted⟩] }
    else none
  | .step i now started => s.conns[i]?.bind fun c => s.advance interval i c now started

end Conns

/-- The slots that connections have. -/
def Conns.held (s : Conns A T) : ℕ := tally (fun c : Connection A => c.pc.slots) s.conns

/-- The threads of connections. -/
def Conns.threads (s : Conns A T) : ℕ := tally (fun c : Connection A => c.pc.threads) s.conns

/-! ### What one step keeps -/

structure Conns.Inv (maxConnections : ℕ) (s : Conns A T) : Prop where
  slots : s.semaphore + s.held = maxConnections
  closes_nodup : s.closes.Nodup
  closes_iff : ∀ i, i ∈ s.closes ↔ ∃ c, s.conns[i]? = some c ∧ c.pc.closed = true

namespace Conns.Inv

variable {maxConnections : ℕ} {s : Conns A T} {i : ℕ} {c : Connection A}

lemma init (zero : T) : (Conns.init maxConnections zero : Conns A T).Inv maxConnections where
  slots := rfl
  closes_nodup := List.nodup_nil
  closes_iff := by simp [Conns.init]

variable (h : s.Inv maxConnections)

include h

lemma accept (addr : A) :
    Conns.Inv maxConnections { s with conns := s.conns ++ [⟨addr, .accepted⟩] } where
  slots := by
    have hslots := h.slots
    simp only [Conns.held, tally_concat] at hslots ⊢
    exact hslots
  closes_nodup := h.closes_nodup
  closes_iff j := by
    rw [h.closes_iff j]
    constructor
    · rintro ⟨c, hc, hclosed⟩
      exact ⟨c, getElem?_concat_eq_some.mpr (.inr hc), hclosed⟩
    · rintro ⟨c, hc, hclosed⟩
      rcases getElem?_concat_eq_some.mp hc with ⟨-, rfl⟩ | hc
      · cases hclosed
      · exact ⟨c, hc, hclosed⟩

/-- A step that closes nothing, with the slot it takes or gives back. -/
lemma move (hi : s.conns[i]? = some c) (pc : ConnPc) {n : ℕ}
    (hclosed : pc.closed = c.pc.closed) (hslots : n + pc.slots = s.semaphore + c.pc.slots) :
    Conns.Inv maxConnections { s.setPc i c pc with semaphore := n } where
  slots := by
    have htally := tally_set (f := fun c : Connection A => c.pc.slots) hi { c with pc := pc }
    have hold := h.slots
    simp only [Conns.held, Conns.setPc] at hold htally ⊢
    omega
  closes_nodup := h.closes_nodup
  closes_iff j := by
    rw [Conns.setPc, h.closes_iff j]
    constructor
    · rintro ⟨d, hd, hdc⟩
      by_cases hj : j = i
      · subst hj
        obtain rfl := Option.some.inj (hi.symm.trans hd)
        exact ⟨_, (getElem?_set_eq_some hi).mpr (.inl ⟨rfl, rfl⟩), hclosed.trans hdc⟩
      · exact ⟨d, (getElem?_set_eq_some hi).mpr (.inr ⟨hj, hd⟩), hdc⟩
    · rintro ⟨d, hd, hdc⟩
      rcases (getElem?_set_eq_some hi).mp hd with ⟨rfl, rfl⟩ | ⟨-, hd⟩
      · exact ⟨c, hi, hclosed.symm.trans hdc⟩
      · exact ⟨d, hd, hdc⟩

/-- A step that closes the connection and keeps its slot. -/
lemma close (hi : s.conns[i]? = some c) {pc : ConnPc} (hopen : c.pc.closed = false)
    (hclosed : pc.closed = true) (hslots : pc.slots = c.pc.slots) :
    ((s.setPc i c pc).close i).Inv maxConnections where
  slots := by
    have htally := tally_set (f := fun c : Connection A => c.pc.slots) hi { c with pc := pc }
    have hold := h.slots
    simp only [Conns.held, Conns.setPc, Conns.close] at hold htally ⊢
    omega
  closes_nodup := by
    have hnot : i ∉ s.closes := fun hmem => by
      obtain ⟨d, hd, hdc⟩ := (h.closes_iff i).mp hmem
      obtain rfl := Option.some.inj (hi.symm.trans hd)
      simp [hopen] at hdc
    exact List.nodup_append.mpr ⟨h.closes_nodup, List.nodup_singleton i, by
      rintro a ha b hb rfl
      exact hnot (List.mem_singleton.mp hb ▸ ha)⟩
  closes_iff j := by
    simp only [Conns.close, Conns.setPc, List.mem_append, List.mem_singleton, h.closes_iff j]
    constructor
    · rintro (⟨d, hd, hdc⟩ | rfl)
      · have hj : j ≠ i := fun heq => by
          obtain rfl := Option.some.inj (hi.symm.trans (heq ▸ hd))
          simp [hopen] at hdc
        exact ⟨d, (getElem?_set_eq_some hi).mpr (.inr ⟨hj, hd⟩), hdc⟩
      · exact ⟨_, (getElem?_set_eq_some hi).mpr (.inl ⟨rfl, rfl⟩), hclosed⟩
    · rintro ⟨d, hd, hdc⟩
      rcases (getElem?_set_eq_some hi).mp hd with ⟨rfl, -⟩ | ⟨-, hd⟩
      · exact .inr rfl
      · exact .inl ⟨d, hd, hdc⟩

variable [LinearOrder T] [Sub T] {interval : T}

lemma step {a : ConnAct A T} {s' : Conns A T} (hs' : s.step interval a = some s') :
    s'.Inv maxConnections := by
  cases a with
  | accept addr =>
    simp only [Conns.step] at hs'
    split_ifs at hs'
    cases hs'
    exact h.accept addr
  | step i now started =>
    obtain ⟨c, hi, hs'⟩ := Option.bind_eq_some_iff.mp hs'
    unfold Conns.advance at hs'
    cases hpc : c.pc with
    | accepted =>
      simp only [hpc] at hs'
      split_ifs at hs' with hsem
      · cases hs'
        exact h.move hi _ (by rw [hpc]; rfl) (by rw [hpc]; rfl)
      · cases hs'
        exact h.move hi _ (by rw [hpc]; rfl) (by rw [hpc]; simp only [ConnPc.slots]; omega)
    | refused =>
      simp only [hpc] at hs'
      cases hs'
      have hmoved := h.move hi .rejecting (n := s.semaphore) (by rw [hpc]; rfl)
        (by rw [hpc]; rfl)
      exact { hmoved with }
    | rejecting =>
      simp only [hpc] at hs'
      cases hs'
      exact h.close hi (by rw [hpc]; rfl) rfl (by rw [hpc]; rfl)
    | granted =>
      simp only [hpc] at hs'
      split_ifs at hs' with hstart
      · cases hs'
        exact h.move hi _ (by rw [hpc]; rfl) (by rw [hpc]; rfl)
      · cases hs'
        exact h.move hi _ (by rw [hpc]; rfl) (by rw [hpc]; rfl)
    | failed =>
      simp only [hpc] at hs'
      cases hs'
      exact h.close hi (by rw [hpc]; rfl) rfl (by rw [hpc]; rfl)
    | running =>
      simp only [hpc] at hs'
      cases hs'
      exact h.close hi (by rw [hpc]; rfl) rfl (by rw [hpc]; rfl)
    | ended =>
      simp only [hpc] at hs'
      cases hs'
      exact h.move hi _ (by rw [hpc]; rfl) (by rw [hpc]; rfl)
    | done =>
      simp only [hpc] at hs'
      cases hs'

end Conns.Inv

lemma Conns.threads_le_held (s : Conns A T) : s.threads ≤ s.held :=
  List.sum_le_sum fun c _ => by cases c.pc <;> decide

section Runs

variable [LinearOrder T] [Sub T] {interval zero : T} {maxConnections : ℕ}
  {acts : List (ConnAct A T)} {s : Conns A T}

/-- However accepting and the threads interleave, and whichever threads cannot be started: a slot is
free or belongs to one connection, so that there are never more threads than `max_connections` and
no slot is lost; a connection is refused exactly if all slots are taken; and every connection that
is over has been closed once, and no other. -/
theorem connections_bounded
    (hrun : run (Conns.step interval) (Conns.init maxConnections zero) acts = some s) :
    s.threads ≤ maxConnections ∧ s.semaphore + s.held = maxConnections ∧
      (∀ i c now started, s.conns[i]? = some c → c.pc = .accepted →
        (s.step interval (.step i now started) = some (s.setPc i c .refused) ↔
          s.held = maxConnections)) ∧
      s.closes.Nodup ∧
      ∀ i, i ∈ s.closes ↔ ∃ c, s.conns[i]? = some c ∧ c.pc.closed = true := by
  have h : s.Inv maxConnections :=
    run_invariant (fun _ _ _ h hstep => h.step hstep) (Conns.Inv.init zero) hrun
  have hslots := h.slots
  refine ⟨s.threads_le_held.trans (by omega), hslots, fun i c now started hi hpc => ?_,
    h.closes_nodup, h.closes_iff⟩
  simp only [Conns.step, hi, Option.bind_some, Conns.advance, hpc]
  by_cases hsem : s.semaphore = 0
  · rw [if_pos hsem]
    exact iff_of_true rfl (by omega)
  · rw [if_neg hsem]
    refine iff_of_false (fun heq => ?_) (by omega)
    have hsems := congrArg Conns.semaphore (Option.some.inj heq)
    simp only [Conns.setPc] at hsems
    omega

/-- The lines written and the count that is kept for the next one account for every rejection. -/
structure Conns.LogInv (interval zero : T) (s : Conns A T) : Prop where
  counted : s.rejections = s.lines.length + (s.lines.map (·.suppressed)).sum + s.log.suppressed
  last : (zero :: s.lines.map (·.time)).getLast? = some s.log.last
  apart : (zero :: s.lines.map (·.time)).IsChain fun t u => interval ≤ u - t

lemma Conns.LogInv.log (h : s.LogInv interval zero) (now : T) (addr : A) {s' : Conns A T}
    (hlog : s'.log = (logOverloadRejection interval now addr s.log).1)
    (hlines : s'.lines = s.lines ++ (logOverloadRejection interval now addr s.log).2.toList)
    (hrej : s'.rejections = s.rejections + 1) : s'.LogInv interval zero := by
  have hcount := h.counted
  unfold logOverloadRejection at hlog hlines
  by_cases hnow : now - s.log.last < interval
  · rw [if_pos hnow] at hlog hlines
    simp only [Option.toList_none, List.append_nil] at hlog hlines
    refine ⟨?_, ?_, ?_⟩
    · rw [hlog, hlines, hrej, hcount]
      rfl
    · rw [hlog, hlines]
      exact h.last
    · rw [hlines]
      exact h.apart
  · rw [if_neg hnow] at hlog hlines
    simp only [Option.toList_some] at hlog hlines
    refine ⟨?_, ?_, ?_⟩
    · rw [hlog, hlines, hrej]
      simp only [List.length_append, List.length_singleton, List.map_append, List.map_singleton,
        List.sum_append, List.sum_singleton]
      omega
    · rw [hlog, hlines, List.map_append, ← List.cons_append]
      exact List.getLast?_concat
    · rw [hlines, List.map_append, ← List.cons_append, List.isChain_append]
      refine ⟨h.apart, List.isChain_singleton _, fun t ht u hu => ?_⟩
      rw [h.last] at ht
      cases ht
      cases hu
      exact not_lt.mp hnow

lemma Conns.LogInv.step (h : s.LogInv interval zero) {a : ConnAct A T} {s' : Conns A T}
    (hs' : s.step interval a = some s') : s'.LogInv interval zero := by
  cases a with
  | accept addr =>
    simp only [Conns.step] at hs'
    split_ifs at hs'
    cases hs'
    exact { h with }
  | step i now started =>
    obtain ⟨c, hi, hs'⟩ := Option.bind_eq_some_iff.mp hs'
    unfold Conns.advance at hs'
    split at hs'
    · split_ifs at hs' <;> cases hs' <;> exact { h with }
    · cases hs'
      exact h.log now c.clientAddress rfl rfl rfl
    · cases hs'
      exact { h with }
    · split_ifs at hs' <;> cases hs' <;> exact { h with }
    · cases hs'
      exact { h with }
    · cases hs'
      exact { h with }
    · cases hs'
      exact { h with }
    · cases hs'

/-- The lines written to the log are at least `OVERLOAD_LOG_INTERVAL_SEC` apart, however many
connections are rejected, and no rejection is left out: what has no line of its own is in the counts
that the lines give or in the one kept for the next line. -/
theorem overloadLog_accounts
    (hrun : run (Conns.step interval) (Conns.init maxConnections zero) acts = some s) :
    (zero :: s.lines.map (·.time)).IsChain (fun t u => interval ≤ u - t) ∧
      s.rejections = s.lines.length + (s.lines.map (·.suppressed)).sum + s.log.suppressed := by
  have h : s.LogInv interval zero :=
    run_invariant (fun _ _ _ h hstep => h.step hstep)
      ⟨rfl, rfl, List.isChain_singleton zero⟩ hrun
  exact ⟨h.apart, h.counted⟩

end Runs

/-- With one slot: the thread of the first connection cannot be started, the second is served, the
third and the fourth are rejected. -/
def connRun : List (ConnAct String ℤ) :=
  [.accept "a", .step 0 9 true, .step 0 9 false, .step 0 9 true,
    .accept "b", .step 1 9 true, .step 1 9 true,
    .accept "c", .step 2 10 true, .step 2 10 true, .step 2 10 true,
    .accept "d", .step 3 11 true, .step 3 11 true, .step 3 11 true,
    .step 1 12 true, .step 1 12 true]

def connEnd : Conns String ℤ :=
  ⟨1, [⟨"a", .done⟩, ⟨"b", .done⟩, ⟨"c", .done⟩, ⟨"d", .done⟩], ⟨10, 1⟩, [⟨10, "c", 0⟩],
    [0, 2, 3, 1], 2⟩

lemma run_connRun : run (Conns.step 5) (Conns.init 1 0) connRun = some connEnd := rfl

theorem connections_bounded_connRun : connEnd.semaphore + connEnd.held = 1 :=
  (connections_bounded run_connRun).2.1

theorem overloadLog_accounts_connRun : connEnd.rejections = 1 + 0 + 1 :=
  (overloadLog_accounts run_connRun).2

end Anticheat.Server
