import Anticheat.Lib.BlockStream
import Anticheat.Lib.CText
import Anticheat.Lib.Run
import Mathlib.Data.List.Perm.Basic
import Mathlib.Data.List.Perm.Subperm

/-!
# The resolver children

`getaddrinfo` has no timeout, so a report resolves its host in a child that writes the addresses
into a pipe, as records of fixed size. The daemon reads them with a deadline, kills the child and
waits for it for two seconds; a child that has not gone by then is kept in a table of eight, which
every resolve sweeps first. No child is ever lost: each one that was not waited for stands in the
table.

Time is part of the model. `poll` and `usleep` wait no longer than they are told, and may return
before because of the pipe, an error or a signal; what all the rest takes is up to the environment.
-/

namespace Anticheat.Report

open CText Transition

/-! ### The children of the daemon -/

abbrev Pid := ℕ

/-- The children that have not been waited for: those that still run, and those that have exited. -/
structure Children where
  running : List Pid
  zombies : List Pid
  deriving DecidableEq, Repr

namespace Children

variable (c : Children)

def all : List Pid := c.running ++ c.zombies

/-- A child exits. -/
def exit (pid : Pid) : Children :=
  if pid ∈ c.running then ⟨c.running.erase pid, pid :: c.zombies⟩ else c

def exits (pids : List Pid) : Children := pids.foldl exit c

end Children

/-- The answers of `waitpid(pid, NULL, WNOHANG)`: the child, 0, or an error. -/
inductive WaitRet where
  | reaped
  | running
  | eintr
  | echild
  deriving DecidableEq, Repr

/-- What happens before a call of `waitpid`: children exit, and a signal may come in. -/
structure Moment where
  exits : List Pid
  intr : Bool
  deriving DecidableEq, Repr

/-- `waitpid(pid, NULL, WNOHANG)` -/
def waitpid (c : Children) (now : Moment) (pid : Pid) : WaitRet × Children :=
  let c := c.exits now.exits
  if now.intr then (.eintr, c)
  else if pid ∈ c.zombies then (.reaped, ⟨c.running, c.zombies.erase pid⟩)
  else if pid ∈ c.running then (.running, c)
  else (.echild, c)

/-! ### The bounded wait -/

/-- `struct timespec` -/
structure Timespec where
  sec : ℤ
  nsec : ℤ
  deriving DecidableEq, Repr

/-- `clock_gettime(CLOCK_MONOTONIC)` when `now` nanoseconds have passed -/
def clockGettime (now : ℕ) : Timespec := ⟨(now / 1000000000 : ℕ), (now % 1000000000 : ℕ)⟩

/-- The milliseconds from one reading to another, as the daemon computes them. -/
def elapsedMs (start now : Timespec) : ℤ :=
  (now.sec - start.sec) * 1000 + (now.nsec - start.nsec).tdiv 1000000

/-- One turn of `waitpid_timeout`: what happens before it, how long it is from the beginning of the
sleep to a signal, and what the rest of the turn takes. -/
structure WaitTurn extends Moment where
  signal : ℕ
  lag : ℕ
  deriving DecidableEq, Repr

/-- What a turn that goes on takes, with `usleep(20000)`. -/
def WaitTurn.length (t : WaitTurn) : ℕ := min 20000000 t.signal + t.lag

/-- How `waitpid_timeout` ends: 0, or -1 with `ETIMEDOUT` or another error. -/
inductive WaitEnd where
  | reaped
  | timedOut
  | failed
  deriving DecidableEq, Repr

/-- `waitpid_timeout` from turn `k` on, for a number of turns; with its result there is the time. -/
def waitpidTimeout (pid : Pid) (timeoutMs : ℤ) (start : Timespec) (turn : ℕ → WaitTurn) :
    ℕ → ℕ → ℕ → Children → Option (WaitEnd × Children × ℕ)
  | 0, _, _, _ => none
  | turns + 1, k, now, c =>
    match waitpid c (turn k).toMoment pid with
    | (.reaped, c) => some (.reaped, c, now)
    | (.echild, c) => some (.failed, c, now)
    | (_, c) =>
      if timeoutMs ≤ elapsedMs start (clockGettime now) then some (.timedOut, c, now)
      else waitpidTimeout pid timeoutMs start turn turns (k + 1) (now + (turn k).length) c

/-! ### The table -/

/-- `AC_MAX_STALE_RESOLVERS` -/
def acMaxStaleResolvers : ℕ := 8

/-- `reap_stale_resolvers` from slot `i` on -/
def reapStaleResolvers (env : ℕ → Moment) : ℕ → List Pid → Children → List Pid × Children
  | _, [], c => ([], c)
  | i, slot :: slots, c =>
    if 0 < slot then
      let (r, c) := waitpid c (env i) slot
      let (slots, c) := reapStaleResolvers env (i + 1) slots c
      ((if r = .reaped || r = .echild then 0 else slot) :: slots, c)
    else
      let (slots, c) := reapStaleResolvers env (i + 1) slots c
      (slot :: slots, c)

/-- `stale_resolver_slot_free` -/
def staleResolverSlotFree (slots : List Pid) : Bool := slots.any (· = 0)

/-- What the functions log. -/
inductive ResolverMsg where
  | refused
  | tracked (pid : Pid)
  | full (pid : Pid)
  deriving DecidableEq, Repr

def ResolverMsg.text : ResolverMsg → String
  | .refused => "ac_resolve_timeout: " ++ toString acMaxStaleResolvers ++
      " resolver children still tracked; refusing to fork another\n"
  | .tracked pid => "ac_resolve_timeout: resolver child " ++ toString pid ++
      " still running after SIGKILL; tracked for later reap, moving on\n"
  | .full pid => "ac_resolve_timeout: resolver child " ++ toString pid ++
      " still running after SIGKILL and the stale-child table is full; it will remain until " ++
      "process exit\n"

/-- The loop of `abandon_resolver_child`: the first free slot takes the child. -/
def putStale (pid : Pid) : List Pid → Option (List Pid)
  | [] => none
  | slot :: slots => if slot = 0 then some (pid :: slots) else (putStale pid slots).map (slot :: ·)

/-- `abandon_resolver_child` -/
def abandonResolverChild (env : ℕ → Moment) (pid : Pid) (slots : List Pid) (c : Children) :
    ResolverMsg × List Pid × Children :=
  let (slots, c) := reapStaleResolvers env 0 slots c
  match putStale pid slots with
  | some slots => (.tracked pid, slots, c)
  | none => (.full pid, slots, c)

/-! ### The records -/

/-- `sizeof(struct sockaddr_storage)` -/
def sockaddrStorageLen : ℕ := 128

/-- The bytes of an `int`, as they stand in memory. -/
def intBytes (x : UInt32) : Bytes :=
  [x.toUInt8, (x >>> 8).toUInt8, (x >>> 16).toUInt8, (x >>> 24).toUInt8]

def ofIntBytes : Bytes → UInt32
  | [a, b, c, d] =>
    UInt32.ofNat (a.toNat + 2 ^ 8 * b.toNat + 2 ^ 16 * c.toNat + 2 ^ 24 * d.toNat)
  | _ => 0

/-- `struct ac_resolved_addr` -/
structure AcResolvedAddr where
  family : UInt32
  socktype : UInt32
  protocol : UInt32
  addrlen : UInt32
  addr : Bytes
  length_addr : addr.length = sockaddrStorageLen

/-- `sizeof(struct ac_resolved_addr)` -/
def recordLen : ℕ := 16 + sockaddrStorageLen

namespace AcResolvedAddr

/-- The bytes of a record. -/
def bytes (a : AcResolvedAddr) : Bytes :=
  intBytes a.family ++ intBytes a.socktype ++ intBytes a.protocol ++ intBytes a.addrlen ++ a.addr

/-- The record that has these bytes, if they are as many as it has. -/
def ofBytes (l : Bytes) : Option AcResolvedAddr :=
  if h : l.length = recordLen then
    some ⟨ofIntBytes (l.take 4), ofIntBytes ((l.drop 4).take 4), ofIntBytes ((l.drop 8).take 4),
      ofIntBytes ((l.drop 12).take 4), l.drop 16, by simp [h, recordLen]⟩
  else none

end AcResolvedAddr

/-- `struct addrinfo`, as far as it is read. -/
structure AddrInfo where
  family : UInt32
  socktype : UInt32
  protocol : UInt32
  addr : Bytes
  deriving DecidableEq, Repr

/-- What the child writes for a result; one that is too long is left out. -/
def AddrInfo.record (a : AddrInfo) : Option AcResolvedAddr :=
  if h : a.addr.length ≤ sockaddrStorageLen then
    some ⟨a.family, a.socktype, a.protocol, UInt32.ofNat a.addr.length,
      a.addr ++ List.replicate (sockaddrStorageLen - a.addr.length) 0, by simp [h]⟩
  else none

/-- All that the child writes if no write fails. -/
def childOutput (res : List AddrInfo) : Bytes :=
  (res.filterMap AddrInfo.record).flatMap AcResolvedAddr.bytes

/-- One turn of the loop that reads: how long it is until `poll` has something to report, whether
that is the pipe, the number of bytes that `read` finds then, or that it fails, and what the rest of
the turn takes. -/
structure ReadTurn where
  after : ℕ
  ready : Bool
  bytes : Option ℕ
  lag : ℕ
  deriving DecidableEq, Repr

/-- `poll`: whether it reports the pipe, and when it returns. A negative timeout is none. -/
def poll (timeoutMs : ℤ) (now : ℕ) (t : ReadTurn) : Bool × ℕ :=
  if timeoutMs < 0 ∨ t.after ≤ timeoutMs.toNat * 1000000 then (t.ready, now + t.after)
  else (false, now + timeoutMs.toNat * 1000000)

/-- The calls of one turn: the bytes that are there, unless the deadline has passed, `poll` gives up
or `read` fails, and the time after it. -/
def readTurn (deadline : Timespec) (now : ℕ) (t : ReadTurn) : Option ℕ × ℕ :=
  let remaining := elapsedMs (clockGettime now) deadline
  if remaining ≤ 0 then (none, now)
  else
    -- (int)remaining_ms
    let (ready, woken) := poll (remaining.bmod (2 ^ 32)) now t
    (if ready then t.bytes else none, woken + t.lag)

/-- The loop of the parent: the records, and the time. -/
def readLoop (max : ℕ) (deadline : Timespec) (turn : ℕ → ReadTurn) (k now : ℕ) (rest buf : Bytes)
    (out : List Bytes) : List Bytes × ℕ :=
  if out.length < max then
    match readTurn deadline now (turn k) with
    | (none, now) => (out, now)
    | (some r, now) =>
      let got := rest.take (min r (recordLen - buf.length))
      if got = [] then (out, now)
      else if (buf ++ got).length = recordLen then
        readLoop max deadline turn (k + 1) now (rest.drop got.length) [] (out ++ [buf ++ got])
      else readLoop max deadline turn (k + 1) now (rest.drop got.length) (buf ++ got) out
  else (out, now)
-- every turn that goes on adds a byte to what there is room for
termination_by max * recordLen - (out.length * recordLen + buf.length)
decreasing_by
  all_goals
    rename_i hmax hgot hfull
    have hpos := List.length_pos_iff.mpr hgot
    have hle : got.length ≤ recordLen - buf.length :=
      (List.length_take_le _ _).trans (Nat.min_le_right _ _)
    have hroom := Nat.mul_le_mul_right recordLen (Nat.succ_le_of_lt hmax)
    rw [List.length_append] at hfull
    rw [Nat.succ_mul] at hroom
  · rw [List.length_append, List.length_singleton, List.length_nil, Nat.succ_mul]
    omega
  · change _ - (_ + (buf ++ got).length) < _
    rw [List.length_append]
    omega

/-! ### A resolve -/

/-- What a resolve meets. -/
structure ResolveEnv where
  start : ℕ
  sweep : ℕ → Moment
  /-- whether `pipe` succeeds -/
  pipe : Bool
  fork : Option Pid
  /-- what it takes to sweep and to fork -/
  forkLag : ℕ
  /-- what `getaddrinfo` finds, and how much of the output gets written before the child ends -/
  res : List AddrInfo
  written : ℕ
  turn : ℕ → ReadTurn
  /-- what it takes to close the pipe and to kill the child -/
  killLag : ℕ
  wait : ℕ → WaitTurn
  /-- how many turns of the bounded wait are followed -/
  waitTurns : ℕ
  abandon : ℕ → Moment
  /-- what it takes to leave -/
  leaveLag : ℕ

namespace ResolveEnv

variable (env : ResolveEnv)

/-- When the deadline is set. -/
def begun : ℕ := env.start + env.forkLag

def deadline (timeoutSec : ℕ) : Timespec :=
  { clockGettime env.begun with sec := (clockGettime env.begun).sec + timeoutSec }

/-- What the child gets written. -/
def output : Bytes := (childOutput env.res).take env.written

/-- What the parent reads, and when it stops. -/
def read (max timeoutSec : ℕ) : List Bytes × ℕ :=
  readLoop max (env.deadline timeoutSec) env.turn 0 env.begun env.output [] []

/-- The wait for the child. -/
def waitFor (max timeoutSec : ℕ) (pid : Pid) (c : Children) : Option (WaitEnd × Children × ℕ) :=
  let now := (env.read max timeoutSec).2 + env.killLag
  waitpidTimeout pid 2000 (clockGettime now) env.wait env.waitTurns 0 now
    ⟨pid :: c.running, c.zombies⟩

end ResolveEnv

/-- The static data of the functions, the children, and what was logged. -/
structure Resolver where
  slots : List Pid
  children : Children
  log : List ResolverMsg
  deriving DecidableEq, Repr

/-- How a resolve ends: the addresses, `none` for -1, what it leaves, and when. -/
structure Resolved where
  addrs : Option (List AcResolvedAddr)
  resolver : Resolver
  now : ℕ

/-- The end of `ac_resolve_timeout`: a child that could not be waited for is put into the table. -/
def settleChild (env : ResolveEnv) (pid : Pid) (slots : List Pid) (log : List ResolverMsg)
    (c : Children) : WaitEnd → Resolver
  | .timedOut =>
    let (msg, slots, c) := abandonResolverChild env.abandon pid slots c
    ⟨slots, c, log ++ [msg]⟩
  | _ => ⟨slots, c, log⟩

/-- `ac_resolve_timeout` -/
def acResolveTimeout (max timeoutSec : ℕ) (env : ResolveEnv) (s : Resolver) : Option Resolved :=
  let (slots, c) := reapStaleResolvers env.sweep 0 s.slots s.children
  if !staleResolverSlotFree slots then
    some ⟨none, ⟨slots, c, s.log ++ [.refused]⟩, env.begun⟩
  else if !env.pipe then some ⟨none, ⟨slots, c, s.log⟩, env.begun⟩
  else
    match env.fork with
    | none => some ⟨none, ⟨slots, c, s.log⟩, env.begun⟩
    | some pid =>
      let out := (env.read max timeoutSec).1
      (env.waitFor max timeoutSec pid c).map fun (e, c, now) =>
        ⟨some (out.filterMap AcResolvedAddr.ofBytes), settleChild env pid slots s.log c e,
          now + env.leaveLag⟩

/-! ### No child is lost -/

section Children

variable {c : Children} {pid : Pid}

lemma all_exit_perm (c : Children) (pid : Pid) : (c.exit pid).all.Perm c.all := by
  unfold Children.exit Children.all
  split_ifs with h
  · exact List.perm_middle.trans ((List.perm_cons_erase h).symm.append_right _)
  · exact .refl _

lemma all_exits_perm (c : Children) (pids : List Pid) : (c.exits pids).all.Perm c.all := by
  unfold Children.exits
  induction pids generalizing c with
  | nil => exact .refl _
  | cons pid pids ih => exact (ih _).trans (all_exit_perm c pid)

/-- A child that has exited stays so until it is waited for. -/
lemma mem_zombies_exits {p : Pid} (h : p ∈ c.zombies) (pids : List Pid) :
    p ∈ (c.exits pids).zombies := by
  unfold Children.exits
  induction pids generalizing c with
  | nil => exact h
  | cons pid pids ih =>
    refine ih ?_
    unfold Children.exit
    split_ifs
    · exact List.mem_cons_of_mem _ h
    · exact h

/-- What a wait does for a child: it takes the child away, if it has exited, or leaves all. -/
lemma waitpid_cases (c : Children) (now : Moment) (hpid : pid ∈ c.all) :
    ((waitpid c now pid).1 = .reaped ∧ (pid :: (waitpid c now pid).2.all).Perm c.all) ∨
      (((waitpid c now pid).1 = .running ∨ (waitpid c now pid).1 = .eintr) ∧
        (waitpid c now pid).2.all.Perm c.all) := by
  have hperm := all_exits_perm c now.exits
  have hmem := List.mem_append.mp (hperm.mem_iff.mpr hpid)
  unfold waitpid
  by_cases hintr : now.intr = true
  · exact .inr (by simp [hintr, hperm])
  · by_cases hz : pid ∈ (c.exits now.exits).zombies
    · left
      simp only [hintr, hz, if_true, if_false, Bool.false_eq_true]
      refine ⟨trivial, List.Perm.trans ?_ hperm⟩
      exact List.perm_middle.symm.trans ((List.perm_cons_erase hz).symm.append_left _)
    · right
      have hr := hmem.resolve_right hz
      simp [hintr, hz, hr, hperm]

/-- The children are those of the table and one more, which is not in it yet. -/
structure Tracked (extra slots : List Pid) (c : Children) : Prop where
  perm : (slots.filter (0 < ·) ++ extra).Perm c.all
  nodup : c.all.Nodup

section Table

variable {extra slots : List Pid}

lemma tracked_cons_pos {slot : Pid} (hslot : 0 < slot) :
    Tracked extra (slot :: slots) c ↔ Tracked (slot :: extra) slots c := by
  have hperm : ((slot :: slots).filter (0 < ·) ++ extra).Perm
      (slots.filter (0 < ·) ++ slot :: extra) := by
    rw [List.filter_cons_of_pos (by simpa using hslot)]
    exact List.perm_middle.symm
  exact ⟨fun h => ⟨hperm.symm.trans h.perm, h.nodup⟩, fun h => ⟨hperm.trans h.perm, h.nodup⟩⟩

lemma tracked_cons_zero : Tracked extra (0 :: slots) c ↔ Tracked extra slots c := by
  constructor <;> rintro ⟨hperm, hnodup⟩ <;> exact ⟨hperm, hnodup⟩

lemma Tracked.mem_all {p : Pid} (h : Tracked extra slots c) (hp : p ∈ extra) : p ∈ c.all :=
  h.perm.mem_iff.mp (List.mem_append_right _ hp)

/-- A wait for a child keeps what is tracked, but for the child that it reaps. -/
lemma Tracked.wait {pid : Pid} (h : Tracked (pid :: extra) slots c) (now : Moment) :
    ((waitpid c now pid).1 = .reaped ∧ Tracked extra slots (waitpid c now pid).2) ∨
      (((waitpid c now pid).1 = .running ∨ (waitpid c now pid).1 = .eintr) ∧
        Tracked (pid :: extra) slots (waitpid c now pid).2) := by
  rcases waitpid_cases c now (h.mem_all List.mem_cons_self) with ⟨hret, hperm⟩ | ⟨hret, hperm⟩
  · refine .inl ⟨hret, ?_, (List.nodup_cons.mp (hperm.nodup_iff.mpr h.nodup)).2⟩
    exact (List.perm_middle.symm.trans (h.perm.trans hperm.symm)).cons_inv
  · exact .inr ⟨hret, h.perm.trans hperm.symm, hperm.nodup_iff.mpr h.nodup⟩

/-- A sweep keeps the children tracked, and frees the slots of those that it reaps. -/
lemma Tracked.reap (env : ℕ → Moment) (i : ℕ) (h : Tracked extra slots c) :
    Tracked extra (reapStaleResolvers env i slots c).1 (reapStaleResolvers env i slots c).2 := by
  induction slots generalizing i c extra with
  | nil => exact h
  | cons slot slots ih =>
    rw [reapStaleResolvers]
    by_cases hslot : 0 < slot
    · rw [if_pos hslot]
      rcases ((tracked_cons_pos hslot).mp h).wait (env i) with ⟨hret, h⟩ | ⟨hret, h⟩
      · simp only [hret, decide_true, Bool.true_or, if_true]
        exact tracked_cons_zero.mpr (ih (i + 1) h)
      · have hkeep : ¬ ((waitpid c (env i) slot).1 = .reaped ∨
            (waitpid c (env i) slot).1 = .echild) := by
          rcases hret with hret | hret <;> simp [hret]
        simp only [Bool.or_eq_true, decide_eq_true_eq, if_neg hkeep]
        exact (tracked_cons_pos hslot).mpr (ih (i + 1) h)
    · obtain rfl : slot = 0 := Nat.eq_zero_of_not_pos hslot
      rw [if_neg hslot]
      exact tracked_cons_zero.mpr (ih (i + 1) (tracked_cons_zero.mp h))

@[simp] lemma length_reap (env : ℕ → Moment) (i : ℕ) (slots : List Pid) (c : Children) :
    (reapStaleResolvers env i slots c).1.length = slots.length := by
  induction slots generalizing i c with
  | nil => rfl
  | cons slot slots ih =>
    rw [reapStaleResolvers]
    split_ifs <;> simp [ih]

/-- A free slot stays free. -/
lemma mem_zero_reap (env : ℕ → Moment) (i : ℕ) (c : Children) (h : 0 ∈ slots) :
    0 ∈ (reapStaleResolvers env i slots c).1 := by
  induction slots generalizing i c with
  | nil => exact h
  | cons slot slots ih =>
    rw [reapStaleResolvers]
    by_cases hslot : 0 < slot
    · rw [if_pos hslot]
      have hmem : 0 ∈ slots := by
        rcases List.mem_cons.mp h with rfl | h
        · exact absurd hslot (Nat.lt_irrefl 0)
        · exact h
      exact List.mem_cons_of_mem _ (ih _ _ hmem)
    · rw [if_neg hslot, Nat.eq_zero_of_not_pos hslot]
      exact List.mem_cons_self

lemma all_waitpid_subset (c : Children) (now : Moment) (pid : Pid) :
    (waitpid c now pid).2.all ⊆ c.all := by
  have hsub := (all_exits_perm c now.exits).subset
  refine List.Subset.trans ?_ hsub
  unfold waitpid
  simp only
  split_ifs
  · exact List.Subset.refl _
  · exact List.append_subset.mpr ⟨List.subset_append_left _ _,
      List.Subset.trans List.erase_subset (List.subset_append_right _ _)⟩
  · exact List.Subset.refl _
  · exact List.Subset.refl _

lemma all_reap_subset (env : ℕ → Moment) (i : ℕ) (slots : List Pid) (c : Children) :
    (reapStaleResolvers env i slots c).2.all ⊆ c.all := by
  induction slots generalizing i c with
  | nil => exact List.Subset.refl _
  | cons slot slots ih =>
    rw [reapStaleResolvers]
    split_ifs
    · exact List.Subset.trans (ih _ _) (all_waitpid_subset _ _ _)
    · exact ih _ _

lemma mem_zombies_waitpid {p : Pid} (h : p ∈ c.zombies) (now : Moment) (hne : p ≠ pid) :
    p ∈ (waitpid c now pid).2.zombies := by
  have hz := mem_zombies_exits h now.exits
  unfold waitpid
  simp only
  split_ifs
  · exact hz
  · exact (List.mem_erase_of_ne hne).mpr hz
  · exact hz
  · exact hz

/-- A child that has exited before an undisturbed sweep is gone after it. -/
lemma not_mem_all_reap {env : ℕ → Moment} (hintr : ∀ i, (env i).intr = false) (i : ℕ)
    (h : Tracked extra slots c) {p : Pid} (hp : p ∈ c.zombies) (hextra : p ∉ extra) :
    p ∉ (reapStaleResolvers env i slots c).2.all := by
  induction slots generalizing i c extra with
  | nil => exact absurd (h.perm.mem_iff.mpr (List.mem_append_right _ hp)) hextra
  | cons slot slots ih =>
    rw [reapStaleResolvers]
    by_cases hslot : 0 < slot
    · rw [if_pos hslot]
      have hwait := ((tracked_cons_pos hslot).mp h).wait (env i)
      by_cases heq : p = slot
      · subst heq
        have hret : (waitpid c (env i) p).1 = .reaped := by
          simp [waitpid, hintr i, mem_zombies_exits hp]
        have hgone : p ∉ (waitpid c (env i) p).2.all := by
          rcases waitpid_cases c (env i) (List.mem_append_right _ hp) with ⟨-, hperm⟩ | ⟨h', -⟩
          · exact (List.nodup_cons.mp (hperm.nodup_iff.mpr h.nodup)).1
          · rw [hret] at h'
            simp at h'
        exact fun hmem => hgone (all_reap_subset _ _ _ _ hmem)
      · have hp' := mem_zombies_waitpid hp (env i) heq
        rcases hwait with ⟨-, h'⟩ | ⟨-, h'⟩
        · exact ih (i + 1) h' hp' hextra
        · exact ih (i + 1) h' hp' (by simp [heq, hextra])
    · obtain rfl : slot = 0 := Nat.eq_zero_of_not_pos hslot
      rw [if_neg hslot]
      exact ih (i + 1) (tracked_cons_zero.mp h) hp hextra

lemma putStale_spec {pid : Pid} (hpid : 0 < pid) (h : 0 ∈ slots) :
    ∃ slots', putStale pid slots = some slots' ∧ slots'.length = slots.length ∧
      (slots'.filter (0 < ·)).Perm (pid :: slots.filter (0 < ·)) := by
  induction slots with
  | nil => simp at h
  | cons slot slots ih =>
    rw [putStale]
    by_cases hslot : slot = 0
    · rw [if_pos hslot]
      exact ⟨_, rfl, rfl, by simp [hpid, hslot]⟩
    · rw [if_neg hslot]
      obtain ⟨slots', hput, hlen, hperm⟩ := ih ((List.mem_cons.mp h).resolve_left (Ne.symm hslot))
      refine ⟨slot :: slots', by simp [hput], by simp [hlen], ?_⟩
      have hpos : 0 < slot := Nat.pos_of_ne_zero hslot
      rw [List.filter_cons_of_pos (by simpa using hpos),
        List.filter_cons_of_pos (by simpa using hpos)]
      exact (hperm.cons slot).trans (.swap _ _ _)

/-- A turn of the bounded wait: the child is reaped, there is none, or it is still there and the
wait is over or goes on. -/
lemma waitpidTimeout_cases {pid : Pid} {timeoutMs : ℤ} {start : Timespec} {turn : ℕ → WaitTurn}
    {turns k now : ℕ} {w : WaitEnd × Children × ℕ}
    (hend : waitpidTimeout pid timeoutMs start turn (turns + 1) k now c = some w) :
    ((waitpid c (turn k).toMoment pid).1 = .reaped ∧
        w = (.reaped, (waitpid c (turn k).toMoment pid).2, now)) ∨
      ((waitpid c (turn k).toMoment pid).1 = .echild ∧
        w = (.failed, (waitpid c (turn k).toMoment pid).2, now)) ∨
      ((waitpid c (turn k).toMoment pid).1 ≠ .reaped ∧
        (w = (.timedOut, (waitpid c (turn k).toMoment pid).2, now) ∨
          elapsedMs start (clockGettime now) < timeoutMs ∧
            waitpidTimeout pid timeoutMs start turn turns (k + 1) (now + (turn k).length)
              (waitpid c (turn k).toMoment pid).2 = some w)) := by
  rw [waitpidTimeout] at hend
  generalize waitpid c (turn k).toMoment pid = r at hend ⊢
  obtain ⟨r, c₁⟩ := r
  have hcont : (if timeoutMs ≤ elapsedMs start (clockGettime now) then some (.timedOut, c₁, now)
      else waitpidTimeout pid timeoutMs start turn turns (k + 1) (now + (turn k).length) c₁) =
      some w → w = (.timedOut, c₁, now) ∨ elapsedMs start (clockGettime now) < timeoutMs ∧
        waitpidTimeout pid timeoutMs start turn turns (k + 1) (now + (turn k).length) c₁ =
          some w := by
    intro hif
    split_ifs at hif with hover
    · exact .inl (Option.some.inj hif).symm
    · exact .inr ⟨Int.lt_of_not_ge hover, hif⟩
  cases r with
  | reaped => exact .inl ⟨rfl, (Option.some.inj hend).symm⟩
  | echild => exact .inr (.inl ⟨rfl, (Option.some.inj hend).symm⟩)
  | running => exact .inr (.inr ⟨by simp, hcont hend⟩)
  | eintr => exact .inr (.inr ⟨by simp, hcont hend⟩)

/-- The bounded wait reaps the child or gives it up. -/
lemma Tracked.waitTimeout {pid : Pid} {timeoutMs : ℤ} {start : Timespec} {turn : ℕ → WaitTurn}
    {turns k now now' : ℕ} {e : WaitEnd} {c' : Children} (h : Tracked (pid :: extra) slots c)
    (hend : waitpidTimeout pid timeoutMs start turn turns k now c = some (e, c', now')) :
    (e = .reaped ∧ Tracked extra slots c') ∨
      (e = .timedOut ∧ Tracked (pid :: extra) slots c') := by
  induction turns generalizing k now c with
  | zero => cases hend
  | succ turns ih =>
    rcases h.wait (turn k).toMoment with ⟨hret, h⟩ | ⟨hret, h⟩
    · rcases waitpidTimeout_cases hend with ⟨-, hw⟩ | ⟨hret', -⟩ | ⟨hret', -⟩
      · cases hw
        exact .inl ⟨rfl, h⟩
      · cases hret.symm.trans hret'
      · exact absurd hret hret'
    · rcases waitpidTimeout_cases hend with ⟨hret', -⟩ | ⟨hret', -⟩ | ⟨-, hw | ⟨-, hrest⟩⟩
      · simp [hret'] at hret
      · simp [hret'] at hret
      · cases hw
        exact .inr ⟨rfl, h⟩
      · exact ih h hrest

end Table

end Children

/-! ### Whole runs -/

/-- The pid that `fork` returns is the one of a new process. -/
def ResolveEnv.forks (env : ResolveEnv) (s : Resolver) : Bool :=
  match env.fork with
  | none => true
  | some pid => 0 < pid && pid ∉ (reapStaleResolvers env.sweep 0 s.slots s.children).2.all

/-- What happens in the life of the daemon, as far as its children are concerned. -/
inductive ResolverAct where
  | exit (pid : Pid)
  | resolve (max timeoutSec : ℕ) (env : ResolveEnv)

def Resolver.init : Resolver := ⟨List.replicate acMaxStaleResolvers 0, ⟨[], []⟩, []⟩

def Resolver.step (s : Resolver) : ResolverAct → Option Resolver
  | .exit pid => some { s with children := s.children.exit pid }
  | .resolve max timeoutSec env =>
    if env.forks s then (acResolveTimeout max timeoutSec env s).map Resolved.resolver else none

structure Resolver.Inv (s : Resolver) : Prop where
  length : s.slots.length = acMaxStaleResolvers
  tracked : Tracked [] s.slots s.children
  log : ∀ pid, .full pid ∉ s.log

lemma Resolver.inv_init : Resolver.init.Inv where
  length := rfl
  tracked := ⟨by decide, by decide⟩
  log pid := by simp [Resolver.init]

lemma Resolver.Inv.length_le {s : Resolver} (hs : s.Inv) :
    s.children.all.length ≤ acMaxStaleResolvers := by
  rw [← hs.tracked.perm.length_eq, List.append_nil, ← hs.length]
  exact List.length_filter_le _ _

lemma tracked_fork {slots : List Pid} {c : Children} {pid : Pid} (h : Tracked [] slots c)
    (hpid : pid ∉ c.all) : Tracked [pid] slots ⟨pid :: c.running, c.zombies⟩ := by
  refine ⟨?_, List.nodup_cons.mpr ⟨hpid, h.nodup⟩⟩
  exact (List.perm_append_singleton _ _).trans ((List.append_nil _ ▸ h.perm).cons pid)

/-- A child that the wait gave up is put into a slot that was free before the resolve. -/
lemma abandonResolverChild_spec (env : ℕ → Moment) {pid : Pid} {slots : List Pid} {c : Children}
    (hpid : 0 < pid) (hfree : 0 ∈ slots) (h : Tracked [pid] slots c) :
    ∃ slots' c', abandonResolverChild env pid slots c = (.tracked pid, slots', c') ∧
      slots'.length = slots.length ∧ Tracked [] slots' c' := by
  have htracked := h.reap env 0
  have hlen := length_reap env 0 slots c
  obtain ⟨slots', hput, hlen', hperm⟩ := putStale_spec hpid (mem_zero_reap env 0 c hfree)
  refine ⟨slots', _, by simp only [abandonResolverChild, hput], hlen'.trans hlen, ?_,
    htracked.nodup⟩
  rw [List.append_nil]
  exact hperm.trans ((List.perm_append_singleton _ _).symm.trans htracked.perm)

/-- The ways of a resolve: it refuses because the table is full, it gets no pipe or no child, or it
reads what a child writes. -/
lemma acResolveTimeout_cases (max timeoutSec : ℕ) (env : ResolveEnv) (s : Resolver)
    {slots : List Pid} {c : Children}
    (hswept : reapStaleResolvers env.sweep 0 s.slots s.children = (slots, c)) :
    (0 ∉ slots ∧ acResolveTimeout max timeoutSec env s =
      some ⟨none, ⟨slots, c, s.log ++ [.refused]⟩, env.begun⟩) ∨
    ((env.pipe = false ∨ env.fork = none) ∧ acResolveTimeout max timeoutSec env s =
      some ⟨none, ⟨slots, c, s.log⟩, env.begun⟩) ∨
    ∃ pid, 0 ∈ slots ∧ env.fork = some pid ∧ acResolveTimeout max timeoutSec env s =
      (env.waitFor max timeoutSec pid c).map fun w =>
        ⟨some ((env.read max timeoutSec).1.filterMap AcResolvedAddr.ofBytes),
          settleChild env pid slots s.log w.2.1 w.1, w.2.2 + env.leaveLag⟩ := by
  have hfree : staleResolverSlotFree slots = true ↔ 0 ∈ slots := by simp [staleResolverSlotFree]
  unfold acResolveTimeout
  simp only [hswept]
  by_cases hzero : 0 ∈ slots
  · right
    simp only [hfree.mpr hzero, Bool.not_true, Bool.false_eq_true, if_false]
    cases hpipe : env.pipe with
    | false => exact .inl ⟨.inl rfl, by simp⟩
    | true =>
      cases hfork : env.fork with
      | none => exact .inl ⟨.inr rfl, by simp⟩
      | some pid => exact .inr ⟨pid, hzero, rfl, by simp⟩
  · have hfull : staleResolverSlotFree slots = false :=
      Bool.eq_false_iff.mpr fun h => hzero (hfree.mp h)
    exact .inl ⟨hzero, by simp [hfull]⟩

lemma ResolveEnv.forks_iff {env : ResolveEnv} {s : Resolver} {slots : List Pid} {c : Children}
    (hswept : reapStaleResolvers env.sweep 0 s.slots s.children = (slots, c)) {pid : Pid}
    (hfork : env.fork = some pid) : env.forks s = true ↔ 0 < pid ∧ pid ∉ c.all := by
  simp [ResolveEnv.forks, hfork, hswept]

/-- A resolve keeps every child tracked. -/
lemma Resolver.Inv.resolve {s : Resolver} {max timeoutSec : ℕ} {env : ResolveEnv} {e : Resolved}
    (hs : s.Inv) (hforks : env.forks s = true)
    (h : acResolveTimeout max timeoutSec env s = some e) : e.resolver.Inv := by
  obtain ⟨slots, c, hswept⟩ : ∃ slots c,
    reapStaleResolvers env.sweep 0 s.slots s.children = (slots, c) := ⟨_, _, rfl⟩
  have htracked : Tracked [] slots c := by simpa [hswept] using hs.tracked.reap env.sweep 0
  have hlen : slots.length = acMaxStaleResolvers := by
    simpa [hswept, hs.length] using length_reap env.sweep 0 s.slots s.children
  have hlog : ∀ msg, (∀ pid, msg ≠ ResolverMsg.full pid) → ∀ pid, .full pid ∉ s.log ++ [msg] := by
    intro msg hmsg pid hmem
    rcases List.mem_append.mp hmem with hmem | hmem
    · exact hs.log pid hmem
    · exact hmsg pid (List.mem_singleton.mp hmem).symm
  rcases acResolveTimeout_cases max timeoutSec env s hswept with
    ⟨-, heq⟩ | ⟨-, heq⟩ | ⟨pid, hzero, hfork, heq⟩
  · cases heq.symm.trans h
    exact ⟨hlen, htracked, hlog _ (by simp)⟩
  · cases heq.symm.trans h
    exact ⟨hlen, htracked, hs.log⟩
  · obtain ⟨hpid, hnew⟩ := (ResolveEnv.forks_iff hswept hfork).mp hforks
    obtain ⟨⟨e', c', now⟩, hwait, hend⟩ := Option.map_eq_some_iff.mp (heq.symm.trans h)
    cases hend
    rcases (tracked_fork htracked hnew).waitTimeout hwait with ⟨rfl, hc'⟩ | ⟨rfl, hc'⟩
    · exact ⟨hlen, hc', hs.log⟩
    · obtain ⟨slots', c'', habandon, hlen', hc''⟩ :=
        abandonResolverChild_spec env.abandon hpid hzero hc'
      simp only [settleChild, habandon]
      exact ⟨hlen'.trans hlen, hc'', hlog _ (by simp)⟩

lemma Resolver.Inv.step {s s' : Resolver} {a : ResolverAct} (hs : s.Inv)
    (h : s.step a = some s') : s'.Inv := by
  cases a with
  | exit pid =>
    cases h
    have hperm := all_exit_perm s.children pid
    exact ⟨hs.length, ⟨hs.tracked.perm.trans hperm.symm, hperm.nodup_iff.mpr hs.tracked.nodup⟩,
      hs.log⟩
  | resolve max timeoutSec env =>
    simp only [Resolver.step] at h
    split_ifs at h with hforks
    obtain ⟨e, hres, rfl⟩ := Option.map_eq_some_iff.mp h
    exact hs.resolve hforks hres

lemma Resolver.inv_of_run {as : List ResolverAct} {s : Resolver}
    (h : run Resolver.step .init as = some s) : s.Inv :=
  run_invariant (fun _ _ _ hs hst => hs.step hst) Resolver.inv_init h

/-- Whatever resolves were made and whenever children ended: the children that have not been waited
for are exactly those in the table, at most eight of them, and the table was never found full when
one had to be put there. -/
theorem resolver_children_tracked {as : List ResolverAct} {s : Resolver}
    (h : run Resolver.step .init as = some s) :
    (s.slots.filter (0 < ·)).Perm s.children.all ∧ s.children.all.length ≤ acMaxStaleResolvers ∧
      ∀ pid, .full pid ∉ s.log := by
  have hs := Resolver.inv_of_run h
  exact ⟨by simpa using hs.tracked.perm, hs.length_le, hs.log⟩

/-- A child that ignores `SIGKILL`, while every fifth millisecond a signal ends the sleep. -/
def stuckEnv (pid : Pid) : ResolveEnv where
  start := 0
  sweep _ := ⟨[], false⟩
  pipe := true
  fork := some pid
  forkLag := 0
  res := []
  written := 0
  turn _ := ⟨0, false, none, 0⟩
  killLag := 0
  wait _ := ⟨⟨[], true⟩, 5000000, 0⟩
  waitTurns := 401
  abandon _ := ⟨[], false⟩
  leaveLag := 0

/-- Two such resolves; the first child is gone before the second. -/
def stuckRun : List ResolverAct :=
  [.resolve 8 3 (stuckEnv 70), .exit 70, .resolve 8 3 (stuckEnv 71)]

theorem resolver_children_tracked_stuck :
    ∃ s, run Resolver.step .init stuckRun = some s ∧ s.children.all.length ≤ 8 ∧
      s.log = [.tracked 70, .tracked 71] := by
  have hrun : (run Resolver.step .init stuckRun).map Resolver.log =
      some [.tracked 70, .tracked 71] := by decide +kernel
  obtain ⟨s, hs, hlog⟩ := Option.map_eq_some_iff.mp hrun
  exact ⟨s, hs, (resolver_children_tracked hs).2.1, hlog⟩

end Anticheat.Report
