import Anticheat.Lib.Run
import Mathlib.Data.List.Infix
import Mathlib.Logic.Function.Basic

/-!
# Loading and unloading the module

`ac_init` and `ac_exit` as the calls that they make, next to everything that runs at the same time:
the handlers of the probes that are registered so far, the requests that they queue on `ac_wq` with
memory of one of the two pools, the poller of missed returns, processes that hold the device open,
and protected address spaces that go away, for each of which `ac_mmu_release` clears its entry and
queues the rest of the removal. A call that waits for something (`unregister_kprobe` for the
handlers that run, `disable_delayed_work_sync` for the poller) is a step that is not enabled before.
-/

namespace Anticheat.Device

open Transition

/-! ### The code -/

/-- `ac_kprobes[]` -/
inductive Kprobe where
  | ptrace
  | ptrace32
  | ptraceX32
  | processVmReadv
  | processVmReadv32
  | processVmWritev
  | processVmWritev32
  deriving DecidableEq, Repr

/-- `ac_kretprobes[]` -/
inductive Kretprobe where
  | clone
  | execve
  | execveat
  | execve32
  | execveat32
  | execveX32
  | execveatX32
  deriving DecidableEq, Repr

def acKprobes : List Kprobe :=
  [.ptrace, .ptrace32, .ptraceX32, .processVmReadv, .processVmReadv32, .processVmWritev,
    .processVmWritev32]

def acKretprobes : List Kretprobe :=
  [.clone, .execve, .execveat, .execve32, .execveat32, .execveX32, .execveatX32]

inductive Probe where
  | kprobe (k : Kprobe)
  | kretprobe (k : Kretprobe)
  deriving DecidableEq, Repr

/-- `ac_prot_add_pool` and `ac_kill_pool` -/
inductive Pool where
  | add
  | kill
  deriving DecidableEq, Repr

/-- What loading acquires and unloading has to give back. -/
inductive Res where
  | wq
  | pool (p : Pool)
  | probe (p : Probe)
  | misc
  deriving DecidableEq, Repr

def Res.isProbe : Res → Bool
  | .probe _ => true
  | _ => false

/-- The calls of `ac_init` and `ac_exit`. -/
inductive Instr where
  | acquire (r : Res)
  /-- of a probe: only if its flag in `ac_kp_ok[]` or `ac_kretp_ok[]` is set -/
  | release (r : Res)
  /-- `queue_delayed_work` of `ac_missed_check_work` -/
  | queuePoller
  /-- `disable_delayed_work_sync` of `ac_missed_check_work` -/
  | disablePoller
  /-- `memset` of `ac_kp_ok[]`, or of `ac_kretp_ok[]` -/
  | forget (ret : Bool)
  /-- `flush_workqueue`; the flag tells the second call of `ac_exit` -/
  | flush (again : Bool)
  | clearProtected
  /-- `ac_exec_pins_drop_all` -/
  | dropPins
  /-- the rest of `destroy_workqueue`, which runs what is queued; see `destroyWorkqueue` -/
  | drain
  deriving DecidableEq, Repr

/-- What `ac_init` does if a call fails. -/
inductive OnFailure where
  | impossible
  /-- go on without it -/
  | optional
  /-- undo what was done and return the error -/
  | fatal (undo : List Instr)
  deriving DecidableEq, Repr

/-- `ac_register_kprobes` -/
def acRegisterKprobes : List (Instr × OnFailure) :=
  (acKprobes.map fun k => (.acquire (.probe (.kprobe k)), .optional)) ++
    acKretprobes.map fun k => (.acquire (.probe (.kretprobe k)), .optional)

/-- `ac_unregister_kprobes` -/
def acUnregisterKprobes : List Instr :=
  (acKprobes.map fun k => Instr.release (.probe (.kprobe k))) ++ [Instr.forget false] ++
    (acKretprobes.map fun k => Instr.release (.probe (.kretprobe k))) ++
    [Instr.forget true, .dropPins]

/-- From the call of `destroy_workqueue` on nothing may be queued; it returns when the items that
are there have run. -/
def destroyWorkqueue : List Instr := [.release .wq, .drain]

def acInit : List (Instr × OnFailure) :=
  [(Instr.acquire .wq, OnFailure.fatal []),
    (.acquire (.pool .add), .fatal destroyWorkqueue),
    (.acquire (.pool .kill), .fatal (.release (.pool .add) :: destroyWorkqueue))] ++
  acRegisterKprobes ++
  [(Instr.queuePoller, OnFailure.impossible),
    (.acquire .misc, .fatal ([Instr.disablePoller] ++ acUnregisterKprobes ++
      [Instr.flush false, .release (.pool .kill), .release (.pool .add)] ++ destroyWorkqueue))]

def acExit : List Instr :=
  [Instr.release .misc, .disablePoller] ++ acUnregisterKprobes ++
    [Instr.flush false, .clearProtected, .flush true] ++ destroyWorkqueue ++
    [Instr.release (.pool .kill), .release (.pool .add)]

/-! ### The system -/

/-- The thread that loads or unloads the module, with the calls that it still has to make. -/
inductive Thread where
  | loading (rest : List (Instr × OnFailure))
  | loaded
  /-- in `ac_exit`, or in the error path of `ac_init` -/
  | undoing (exit : Bool) (rest : List Instr)
  deriving DecidableEq, Repr

/-- `ac_missed_check_work`: not queued, waiting for its timer, in the loop of
`ac_missed_check_worker` with these probes left to look at, or disabled. -/
inductive Poller where
  | idle
  | timer
  | running (rest : List Kretprobe)
  | disabled
  deriving DecidableEq, Repr

/-- An item on `ac_wq`: a request of a handler, with memory of a pool, or the removal of an entry
whose address space is gone, which is part of the entry. -/
inductive Item where
  | request (p : Pool)
  | removal
  deriving DecidableEq, Repr

/-- `waiting` is set inside `flush_workqueue`, to the number of the first item it does not wait
for. The items of `works` are numbered as they were queued. `prots` is the number of registered
entries, `everProtected` tells whether there was any, and `releasing` is the number of calls of
`ac_mmu_release` that have cleared their entry and not yet queued its removal. `pins` is the number
of address spaces in `ac_exec_pins[]`. `fault` records a call that should not have been made. -/
structure Life where
  thread : Thread
  held : Res → Bool
  ok : Probe → Bool
  poller : Poller
  waiting : Option ℕ
  handlers : Probe → ℕ
  works : List (ℕ × Item)
  items : ℕ
  fds : ℕ
  prots : ℕ
  releasing : ℕ
  pins : ℕ
  everProtected : Bool
  fault : Bool

def Life.init : Life where
  thread := .loading acInit
  held _ := false
  ok _ := false
  poller := .idle
  waiting := none
  handlers _ := 0
  works := []
  items := 0
  fds := 0
  prots := 0
  releasing := 0
  pins := 0
  everProtected := false
  fault := false

inductive LifeAct where
  /-- the next call of the thread, and whether it succeeds -/
  | call (success : Bool)
  /-- `flush_workqueue` returns -/
  | flushed
  /-- `rmmod` -/
  | unload
  | openDev
  | closeDev
  | addProc
  | delProc
  /-- a protected address space goes away: `ac_mmu_release` clears its entry, and queues its
  removal -/
  | mmExit
  | mmQueue
  /-- a handler starts, queues a request if there is memory for it, and returns -/
  | enter (p : Probe)
  | queue (p : Probe) (memory : Bool)
  | leave (p : Probe)
  /-- `ac_exec_entry` pins the address space that is replaced, `ac_exec_ret` takes over the pin -/
  | pin (k : Kretprobe)
  | unpin (k : Kretprobe)
  /-- a worker runs an item to its end; a request to add may register an entry and drop another -/
  | work (item : ℕ × Item) (registers drops : Bool)
  | pollFire
  | pollNext
  deriving DecidableEq, Repr

/-- The pool that the requests of a handler come from. -/
def Probe.pool : Probe → Pool
  | .kprobe _ => .kill
  | .kretprobe _ => .add

def Probe.isRet : Probe → Bool
  | .kprobe _ => false
  | .kretprobe _ => true

namespace Life

variable (s : Life)

def complain (bad : Bool) : Life := { s with fault := s.fault || bad }

def setHeld (r : Res) (b : Bool) : Life := { s with held := Function.update s.held r b }

def setHandlers (p : Probe) (n : ℕ) : Life :=
  { s with handlers := Function.update s.handlers p n }

/-- `queue_work` -/
def enqueue (i : Item) : Life :=
  { s with works := (s.items, i) :: s.works, items := s.items + 1 }

/-- Whether the poller is on the queue or its timer will put it there. -/
def polling : Bool :=
  match s.poller with
  | .idle | .disabled => false
  | .timer | .running _ => true

/-- The flag of a probe, in `ac_kp_ok[]` or `ac_kretp_ok[]`. -/
def setOk (r : Res) (b : Bool) : Life :=
  { s with ok := fun p => if .probe p = r then b else s.ok p }

/-- What giving back a resource does. It must be held, and no longer in use. -/
def release (r : Res) : Option Life :=
  match r with
  | .probe p =>
    if s.ok p then
      if s.handlers p = 0 then some ((s.complain !s.held r).setHeld r false) else none
    else some s
  | .pool p =>
    some ((s.complain (!s.held r || s.works.any (·.2 = .request p))).setHeld r false)
  | .wq => some ((s.complain (!s.held r || s.polling)).setHeld r false)
  | .misc => some ((s.complain !s.held r).setHeld r false)

/-- A call of `ac_exit`, or of the error path of `ac_init`. -/
def undo (exit : Bool) (rest : List Instr) : Instr → Option Life
  | .release r => (s.release r).map fun s' => { s' with thread := .undoing exit rest }
  | .disablePoller =>
    match s.poller with
    | .running _ => none
    | _ => some { s with poller := .disabled, thread := .undoing exit rest }
  | .forget ret =>
    some { s with
      ok := fun p => s.ok p && p.isRet != ret
      thread := .undoing exit rest }
  | .flush _ => if s.waiting.isNone then some { s with waiting := some s.items } else none
  | .clearProtected =>
    some { s.complain (s.works.any (·.2 ≠ .removal) || s.fds != 0) with
      prots := 0
      thread := .undoing exit rest }
  | .dropPins =>
    -- the last reference to an address space may be dropped here; it then goes away as any other
    some { s.complain (acKretprobes.any fun k => s.handlers (.kretprobe k) != 0) with
      pins := 0
      thread := .undoing exit rest }
  | .drain => if s.works = [] then some { s with thread := .undoing exit rest } else none
  | .acquire _ | .queuePoller => none

/-- A call of `ac_init`. -/
def load (success : Bool) (rest : List (Instr × OnFailure)) (f : OnFailure) : Instr → Option Life
  | .acquire r =>
    if success then some { (s.setHeld r true).setOk r true with thread := .loading rest }
    else
      match f with
      | .impossible => none
      | .optional => some { s.setOk r false with thread := .loading rest }
      | .fatal undo => some { s with thread := .undoing false undo }
  | .queuePoller =>
    some { s.complain !s.held .wq with poller := .timer, thread := .loading rest }
  | _ => none

def step : LifeAct → Option Life
  | .call success =>
    match s.thread with
    | .loading [] => some { s with thread := .loaded }
    | .loading ((i, f) :: rest) => s.load success rest f i
    | .undoing exit (i :: rest) => s.undo exit rest i
    | _ => none
  | .flushed =>
    match s.thread, s.waiting with
    | .undoing exit (.flush _ :: rest), some n =>
      if s.works.all (n ≤ ·.1) then some { s with waiting := none, thread := .undoing exit rest }
      else none
    | _, _ => none
  | .unload =>
    -- an open descriptor holds a reference on the module
    if s.thread = .loaded ∧ s.fds = 0 then some { s with thread := .undoing true acExit } else none
  | .openDev =>
    match s.thread with
    | .undoing _ _ => none
    | _ => if s.held .misc then some { s with fds := s.fds + 1 } else none
  | .closeDev => if s.fds = 0 then none else some { s with fds := s.fds - 1 }
  | .addProc =>
    if s.fds = 0 then none else some { s with prots := s.prots + 1, everProtected := true }
  | .delProc => if s.fds = 0 then none else some { s with prots := s.prots - 1 }
  | .mmExit =>
    if s.prots = 0 then none
    else some { s with prots := s.prots - 1, releasing := s.releasing + 1 }
  | .mmQueue =>
    if s.releasing = 0 then none
    else some { (s.complain !s.held .wq).enqueue .removal with releasing := s.releasing - 1 }
  | .enter p => if s.held (.probe p) then some (s.setHandlers p (s.handlers p + 1)) else none
  | .queue p memory =>
    -- a handler has nothing to queue unless some address space is or was protected
    if s.handlers p = 0 ∨ s.everProtected = false then none
    else
      let s := s.complain !s.held (.pool p.pool)
      if memory then some ((s.complain !s.held .wq).enqueue (.request p.pool)) else some s
  | .leave p => if s.handlers p = 0 then none else some (s.setHandlers p (s.handlers p - 1))
  | .pin k =>
    if s.handlers (.kretprobe k) = 0 ∨ k = .clone ∨ s.everProtected = false then none
    else some { s with pins := s.pins + 1 }
  | .unpin k =>
    if s.handlers (.kretprobe k) = 0 ∨ k = .clone ∨ s.pins = 0 then none
    else some { s with pins := s.pins - 1 }
  | .work item registers drops =>
    if item ∈ s.works then
      let done := { s with works := s.works.erase item }
      match item.2 with
      | .request p =>
        some { done.complain !s.held (.pool p) with
          prots := if p = .add then s.prots + registers.toNat - drops.toNat else s.prots }
      | .removal => some done
    else none
  | .pollFire =>
    match s.poller with
    | .timer => some { s.complain !s.held .wq with poller := .running acKretprobes }
    | _ => none
  | .pollNext =>
    match s.poller with
    | .running [] => some { s.complain !s.held .wq with poller := .timer }
    | .running (k :: rest) =>
      some { s.complain (s.ok (.kretprobe k) && !s.held (.probe (.kretprobe k))) with
        poller := .running rest }
    | _ => none

/-- Nothing is left of the module. -/
structure Gone : Prop where
  held : ∀ r, s.held r = false
  handlers : ∀ p, s.handlers p = 0
  works : s.works = []
  polling : s.polling = false
  fds : s.fds = 0
  prots : s.prots = 0
  releasing : s.releasing = 0
  pins : s.pins = 0

/-- When `destroy_workqueue` is called, no `ac_mmu_release` is between its critical section and its
`queue_work`. -/
def noneReleasing : LifeAct → Bool
  | .call _ =>
    match s.thread with
    | .undoing _ (.release .wq :: _) => s.releasing = 0
    | _ => true
  | _ => true

end Life

/-! ### The order of the calls

What a thread has acquired, and not yet given back, can be read off the calls that it still has to
make. -/

namespace Thread

/-- The thread has tried to acquire it and has not given it back. -/
def has (r : Res) : Thread → Bool
  | .loading rest => rest.all fun c => c.1 ≠ .acquire r
  | .loaded => true
  | .undoing _ rest => .release r ∈ rest

def polls : Thread → Bool
  | .loading rest => rest.all fun c => c.1 ≠ .queuePoller
  | .loaded => true
  | .undoing _ rest => .disablePoller ∈ rest

/-- The flags of the probes of this kind have not been cleared. -/
def flags (ret : Bool) : Thread → Bool
  | .undoing _ rest => .forget ret ∈ rest
  | _ => true

/-- The device has been there. -/
def served : Thread → Bool
  | .undoing exit _ => exit
  | t => t.has .misc

/-- There may be requests. -/
def busy : Thread → Bool
  | .undoing exit rest => exit && .flush false ∈ rest
  | t => t.has .misc

/-- There may be entries in the registry. -/
def protects : Thread → Bool
  | .undoing exit rest => exit && .clearProtected ∈ rest
  | t => t.has .misc

def flushesAgain : Thread → Bool
  | .undoing _ rest => .flush true ∈ rest
  | _ => true

def dropsPins : Thread → Bool
  | .undoing _ rest => .dropPins ∈ rest
  | _ => true

/-- There may be items on the queue. -/
def drains : Thread → Bool
  | .undoing _ rest => .drain ∈ rest
  | _ => true

end Thread

def acProbes : List Probe := acKprobes.map .kprobe ++ acKretprobes.map .kretprobe

lemma mem_acProbes (p : Probe) : p ∈ acProbes := by
  rcases p with k | k <;> cases k <;> decide

def Pool.all : List Pool := [.add, .kill]

lemma Pool.mem_all (p : Pool) : p ∈ Pool.all := by cases p <;> decide

def Res.all : List Res := [.wq, .misc] ++ Pool.all.map .pool ++ acProbes.map .probe

lemma Res.mem_all (r : Res) : r ∈ Res.all := by
  rcases r with _ | p | p | _
  · decide
  · simp [Res.all, p.mem_all]
  · simp [Res.all, mem_acProbes p]
  · decide

/-- The queue outlives the poller, the probes and the entries, it and the pools outlive the
requests, and the pins are dropped after the probes. -/
def Thread.InOrder (t : Thread) : Prop :=
  (t.polls = true → t.has .wq = true ∧ ∀ p ∈ acProbes, t.has (.probe p) = true) ∧
  (∀ p ∈ acProbes, t.has (.probe p) = true →
    t.has .wq = true ∧ (∀ q ∈ Pool.all, t.has (.pool q) = true) ∧ t.flags p.isRet = true ∧
      (t.served = true → t.busy = true) ∧ t.dropsPins = true) ∧
  (t.busy = true → (∀ q ∈ Pool.all, t.has (.pool q) = true) ∧ t.protects = true ∧
    t.flushesAgain = true) ∧
  (t.protects = true → t.has .wq = true) ∧ (t.has .wq = true → t.drains = true)

instance (t : Thread) : Decidable t.InOrder := by unfold Thread.InOrder; infer_instance

/-- Code that undoes each thing once, in order. -/
def Undoes (exit : Bool) (code : List Instr) : Prop :=
  code.Nodup ∧ ∀ rest ∈ code.tails, (Thread.undoing exit rest).InOrder

instance (exit : Bool) (code : List Instr) : Decidable (Undoes exit code) := by
  unfold Undoes; infer_instance

/-- The error path after a failed call gives back what has been acquired before it. -/
def UndoesLoad (rest : List (Instr × OnFailure)) : Prop :=
  match rest with
  | (_, .fatal undo) :: _ =>
    Undoes false undo ∧ (Thread.loading rest).has .misc = false ∧
      (∀ r ∈ Res.all, (Thread.undoing false undo).has r = (Thread.loading rest).has r) ∧
      ((Thread.loading rest).polls = true → (Thread.undoing false undo).polls = true)
  | _ => True

instance (rest : List (Instr × OnFailure)) : Decidable (UndoesLoad rest) := by
  unfold UndoesLoad; split <;> infer_instance

lemma acInit_inOrder : ∀ rest ∈ acInit.tails, (Thread.loading rest).InOrder ∧ UndoesLoad rest := by
  decide +kernel

lemma acInit_nodup : (acInit.map Prod.fst).Nodup := by decide +kernel

lemma has_acExit (r : Res) : (Thread.undoing true acExit).has r = true :=
  (by decide +kernel : ∀ r ∈ Res.all, (Thread.undoing true acExit).has r = true) r r.mem_all

lemma acExit_undoes : Undoes true acExit := by decide +kernel

lemma Thread.has_loading_cons (r : Res) (i : Instr) (f : OnFailure)
    (rest : List (Instr × OnFailure)) : (Thread.loading ((i, f) :: rest)).has r =
      (decide (i ≠ .acquire r) && (Thread.loading rest).has r) := rfl

lemma Thread.has_undoing_cons (r : Res) (exit : Bool) (i : Instr) (rest : List Instr) :
    (Thread.undoing exit (i :: rest)).has r =
      (decide (.release r = i) || (Thread.undoing exit rest).has r) := by
  simp [Thread.has, List.mem_cons]

/-- A call of `ac_init` is not made a second time. -/
lemma not_mem_of_suffix_acInit {i : Instr} {f : OnFailure} {rest : List (Instr × OnFailure)}
    (h : (i, f) :: rest <:+ acInit) : i ∉ rest.map Prod.fst :=
  (List.nodup_cons.mp (acInit_nodup.sublist (h.sublist.map Prod.fst))).1

/-- Only a probe may be missing. -/
lemma isProbe_of_optional {r : Res} (h : (Instr.acquire r, OnFailure.optional) ∈ acInit) :
    r.isProbe = true := by
  rcases r with _ | p | p | _
  · revert h
    decide
  · revert h
    cases p <;> decide
  · rfl
  · revert h
    decide

lemma Thread.has_acquired {r : Res} {f : OnFailure} {rest : List (Instr × OnFailure)}
    (h : (Instr.acquire r, f) :: rest <:+ acInit) : (Thread.loading rest).has r = true := by
  have hnot := not_mem_of_suffix_acInit h
  simp only [Thread.has, List.all_eq_true, decide_eq_true_eq]
  intro c hc heq
  exact hnot (heq ▸ List.mem_map_of_mem hc)

/-- The code of a thread is what is left of `ac_init`, of `ac_exit` or of an error path. -/
def Thread.Code : Thread → Prop
  | .loading rest => rest <:+ acInit
  | .loaded => True
  | .undoing exit rest => Undoes exit rest

lemma Undoes.tail {exit : Bool} {i : Instr} {rest : List Instr} (h : Undoes exit (i :: rest)) :
    Undoes exit rest :=
  ⟨h.1.of_cons, fun t ht => h.2 t ((List.mem_tails _ _).mpr
    (((List.mem_tails _ _).mp ht).trans (List.suffix_cons i rest)))⟩

lemma Undoes.inOrder {exit : Bool} {rest : List Instr} (h : Undoes exit rest) :
    (Thread.undoing exit rest).InOrder :=
  h.2 rest ((List.mem_tails _ _).mpr List.suffix_rfl)

lemma Thread.Code.inOrder {t : Thread} (h : t.Code) : t.InOrder := by
  cases t with
  | loading rest => exact (acInit_inOrder rest ((List.mem_tails _ _).mpr h)).1
  | loaded => decide
  | undoing exit rest => exact Undoes.inOrder h

/-! ### The invariant -/

/-- What is held is what the thread has to give back, whatever is in use is held, and no call has
been out of place. -/
structure Life.Inv (s : Life) : Prop where
  code : s.thread.Code
  held : ∀ r, r.isProbe = false → s.held r = s.thread.has r
  has_of_held : ∀ p, s.held (.probe p) = true → s.thread.has (.probe p) = true
  ok_of_held : ∀ p, s.held (.probe p) = true → s.ok p = true
  held_of_ok : ∀ p, s.ok p = true → s.thread.has (.probe p) = true → s.held (.probe p) = true
  polls : s.polling = true → s.thread.polls = true
  handlers : ∀ p, s.handlers p ≠ 0 → s.held (.probe p) = true
  served : s.everProtected = true → s.thread.served = true
  fds : s.fds ≠ 0 → s.thread.has .misc = true ∧ ∀ exit rest, s.thread ≠ .undoing exit rest
  prots : s.prots ≠ 0 → s.everProtected = true ∧ s.thread.protects = true
  releasing : s.releasing ≠ 0 → s.everProtected = true ∧ s.thread.has .wq = true
  pins : s.pins ≠ 0 → s.everProtected = true ∧ s.thread.dropsPins = true
  requests : ∀ w ∈ s.works, w.2 ≠ .removal → s.thread.busy = true
  works : s.works ≠ [] → s.everProtected = true ∧ s.thread.drains = true
  items : ∀ w ∈ s.works, w.1 < s.items
  waiting : ∀ n, s.waiting = some n → ∃ exit again rest,
    s.thread = .undoing exit (.flush again :: rest) ∧ ∀ w ∈ s.works, w.2 ≠ .removal → w.1 < n
  fault : s.fault = false

lemma Life.Inv.init : Life.init.Inv where
  code := List.suffix_rfl
  held r hr := by
    rcases r with _ | p | p | _
    · decide
    · cases p <;> decide
    · cases hr
    · decide
  has_of_held _ h := by cases h
  ok_of_held _ h := by cases h
  held_of_ok _ h := by cases h
  polls h := by cases h
  handlers _ h := absurd rfl h
  served h := by cases h
  fds h := absurd rfl h
  prots h := absurd rfl h
  releasing h := absurd rfl h
  pins h := absurd rfl h
  requests _ h := by cases h
  works h := absurd rfl h
  items _ h := by cases h
  waiting _ h := by cases h
  fault := rfl

namespace Life.Inv

variable {s : Life} (h : s.Inv)

include h

/-- While the poller is on, the queue is there, and so is every probe whose flag is set. -/
lemma polling_held (hp : s.polling = true) :
    s.held .wq = true ∧ ∀ p, s.ok p = true → s.held (.probe p) = true := by
  obtain ⟨hwq, hprobe⟩ := h.code.inOrder.1 (h.polls hp)
  exact ⟨(h.held .wq rfl).trans hwq, fun p hok =>
    h.held_of_ok p hok (hprobe p (mem_acProbes p))⟩

/-- A handler that runs finds the queue and the pools, and the pins are still to be dropped. -/
lemma handler_held {p : Probe} (hp : s.handlers p ≠ 0) :
    s.held .wq = true ∧ (∀ q, s.held (.pool q) = true) ∧
      (s.everProtected = true → s.thread.busy = true) ∧ s.thread.dropsPins = true := by
  obtain ⟨hwq, hpool, -, hbusy, hdrop⟩ :=
    h.code.inOrder.2.1 p (mem_acProbes p) (h.has_of_held p (h.handlers p hp))
  exact ⟨(h.held .wq rfl).trans hwq, fun q => (h.held (.pool q) rfl).trans
    (hpool q q.mem_all), fun he => hbusy (h.served he), hdrop⟩

/-- The worker of a request finds the pools, and the registry is still to be cleared. -/
lemma request_held {w : ℕ × Item} (hw : w ∈ s.works) (hreq : w.2 ≠ .removal) :
    (∀ q, s.held (.pool q) = true) ∧ s.thread.protects = true := by
  obtain ⟨hpool, hprot, -⟩ := h.code.inOrder.2.2.1 (h.requests w hw hreq)
  exact ⟨fun q => (h.held (.pool q) rfl).trans (hpool q q.mem_all), hprot⟩

/-- `ac_mmu_release` finds the queue. -/
lemma releasing_held (hr : s.releasing ≠ 0) : s.held .wq = true :=
  (h.held .wq rfl).trans (h.releasing hr).2

/-- Inside a flush no more requests are queued. -/
lemma waiting_eq_none_of_handler (he : s.everProtected = true) {p : Probe}
    (hp : s.handlers p ≠ 0) : s.waiting = none := by
  by_contra hw
  obtain ⟨n, hn⟩ := Option.ne_none_iff_exists'.mp hw
  obtain ⟨exit, again, rest, ht, -⟩ := h.waiting n hn
  have hhas := h.has_of_held p (h.handlers p hp)
  have hserved := h.served he
  have hcode := h.code
  rw [ht] at hhas hserved hcode
  -- the probe would still have to be unregistered after the flush
  have hrest : (Thread.undoing exit rest).has (.probe p) = true := by
    simpa [Thread.has] using hhas
  obtain ⟨-, -, -, hbusy, -⟩ := (hcode.tail.inOrder).2.1 p (mem_acProbes p) hrest
  have hb := hbusy hserved
  have hflush := ((hcode.tail.inOrder).2.2.1 hb).2.2
  have hnot : Instr.flush again ∉ rest := (List.nodup_cons.mp hcode.1).1
  cases again with
  | false => exact hnot (by simpa [Thread.busy] using (Bool.and_eq_true_iff.mp hb).2)
  | true => exact hnot (by simpa [Thread.flushesAgain] using hflush)

/-! ### Everything but the thread -/

omit h in
lemma complain_false : s.complain false = s := by simp [Life.complain]

omit h in
lemma setHeld_eq_self {r : Res} {b : Bool} (hr : s.held r = b) : s.setHeld r b = s := by
  rw [Life.setHeld, ← hr, Function.update_eq_self]

lemma open_close {n : ℕ} (hn : n ≠ 0 → s.thread.has .misc = true ∧
    ∀ exit rest, s.thread ≠ .undoing exit rest) : Life.Inv { s with fds := n } :=
  { h with fds := hn }

lemma served_of_fds (hf : s.fds ≠ 0) : s.thread.served = true ∧ s.thread.protects = true := by
  obtain ⟨hmisc, hthread⟩ := h.fds hf
  cases ht : s.thread with
  | loading rest =>
    rw [ht] at hmisc
    exact ⟨hmisc, hmisc⟩
  | loaded => exact ⟨rfl, rfl⟩
  | undoing exit rest => exact absurd ht (hthread exit rest)

lemma setProts {n : ℕ} {ever : Bool} (hever : ever = true → s.thread.served = true)
    (hle : s.everProtected = true → ever = true)
    (hn : n ≠ 0 → ever = true ∧ s.thread.protects = true) :
    Life.Inv { s with prots := n, everProtected := ever } :=
  { h with
    served := hever
    prots := hn
    releasing := fun hr => ⟨hle (h.releasing hr).1, (h.releasing hr).2⟩
    pins := fun hp => ⟨hle (h.pins hp).1, (h.pins hp).2⟩
    works := fun hw => ⟨hle (h.works hw).1, (h.works hw).2⟩ }

lemma setHandlers {p : Probe} {n : ℕ} (hn : n ≠ 0 → s.held (.probe p) = true) :
    (s.setHandlers p n).Inv :=
  { h with
    handlers := fun q hq => by
      by_cases hqp : q = p
      · subst hqp
        exact hn (by simpa [Life.setHandlers] using hq)
      · exact h.handlers q (by simpa [Life.setHandlers, hqp] using hq) }

lemma enqueue {i : Item} (he : s.everProtected = true) (hwq : s.thread.has .wq = true)
    (hreq : i ≠ .removal → s.thread.busy = true ∧ s.waiting = none) : (s.enqueue i).Inv :=
  { h with
    requests := fun w hw hne => by
      rcases List.mem_cons.mp hw with rfl | hw
      · exact (hreq hne).1
      · exact h.requests w hw hne
    works := fun _ => ⟨he, h.code.inOrder.2.2.2.2 hwq⟩
    items := fun w hw => by
      rcases List.mem_cons.mp hw with rfl | hw
      · exact Nat.lt_succ_self _
      · exact Nat.lt_succ_of_lt (h.items w hw)
    waiting := fun n hn => by
      obtain ⟨exit, again, rest, ht, hlt⟩ := h.waiting n hn
      refine ⟨exit, again, rest, ht, fun w hw hne => ?_⟩
      rcases List.mem_cons.mp hw with rfl | hw
      · exact absurd (hn.symm.trans (hreq hne).2) (by simp)
      · exact hlt w hw hne }

/-- A worker comes to the end of an item. -/
lemma work {item : ℕ × Item} (hitem : item ∈ s.works) {n : ℕ}
    (hn : n ≠ 0 → s.thread.protects = true) :
    Life.Inv { s with works := s.works.erase item, prots := n } :=
  have hworks := h.works (List.ne_nil_of_mem hitem)
  { h with
    prots := fun hne => ⟨hworks.1, hn hne⟩
    requests := fun w hw => h.requests w (List.mem_of_mem_erase hw)
    works := fun _ => hworks
    items := fun w hw => h.items w (List.mem_of_mem_erase hw)
    waiting := fun n hn => by
      obtain ⟨exit, again, rest, ht, hlt⟩ := h.waiting n hn
      exact ⟨exit, again, rest, ht, fun w hw => hlt w (List.mem_of_mem_erase hw)⟩ }

/-- `ac_mmu_release` clears an entry. -/
lemma mmExit (hp : s.prots ≠ 0) :
    Life.Inv { s with prots := s.prots - 1, releasing := s.releasing + 1 } :=
  have hprots := h.prots hp
  { h with
    prots := fun _ => hprots
    releasing := fun _ => ⟨hprots.1, h.code.inOrder.2.2.2.1 hprots.2⟩ }

lemma setPoller (q : Poller) (hq : Life.polling { s with poller := q } = true → s.polling = true) :
    Life.Inv { s with poller := q } :=
  { h with polls := fun hp => h.polls (hq hp) }

/-! ### The thread -/

lemma waiting_eq_none (ht : ∀ exit again rest, s.thread ≠ .undoing exit (.flush again :: rest)) :
    s.waiting = none := by
  cases hw : s.waiting with
  | none => rfl
  | some n =>
    obtain ⟨exit, again, rest, heq, -⟩ := h.waiting n hw
    exact absurd heq (ht exit again rest)

/-- The thread has made a call that gives nothing back and changes no flag. -/
lemma setThread {t : Thread} (hcode : t.Code) (hhas : ∀ r, t.has r = s.thread.has r)
    (hpolls : s.polling = true → t.polls = true)
    (hserved : s.everProtected = true → t.served = true)
    (hundoing : s.fds ≠ 0 → ∀ exit rest, t ≠ .undoing exit rest)
    (hprot : s.prots ≠ 0 → t.protects = true) (hdrop : s.pins ≠ 0 → t.dropsPins = true)
    (hbusy : ∀ w ∈ s.works, w.2 ≠ .removal → t.busy = true)
    (hdrain : s.works ≠ [] → t.drains = true) (hwait : s.waiting = none) :
    Life.Inv { s with thread := t } :=
  { h with
    code := hcode
    held := fun r hr => (h.held r hr).trans (hhas r).symm
    has_of_held := fun p hp => (hhas _).trans (h.has_of_held p hp)
    held_of_ok := fun p hok hp => h.held_of_ok p hok ((hhas _).symm.trans hp)
    polls := hpolls
    served := hserved
    fds := fun hf => ⟨(hhas _).trans (h.fds hf).1, hundoing hf⟩
    prots := fun hp => ⟨(h.prots hp).1, hprot hp⟩
    releasing := fun hr => ⟨(h.releasing hr).1, (hhas _).trans (h.releasing hr).2⟩
    pins := fun hp => ⟨(h.pins hp).1, hdrop hp⟩
    requests := hbusy
    works := fun hw => ⟨(h.works hw).1, hdrain hw⟩
    waiting := fun n hn => by
      rw [hwait] at hn
      cases hn }

/-- `ac_init` returns 0. -/
lemma loaded (ht : s.thread = .loading []) : Life.Inv { s with thread := .loaded } :=
  h.setThread trivial (fun r => by simp [ht, Thread.has]) (fun _ => rfl) (fun _ => rfl)
    (fun _ _ _ => by simp) (fun _ => rfl) (fun _ => rfl) (fun _ _ _ => rfl) (fun _ => rfl)
    (h.waiting_eq_none fun _ _ _ => by simp [ht])

lemma unload (ht : s.thread = .loaded) (hf : s.fds = 0) :
    Life.Inv { s with thread := .undoing true acExit } :=
  h.setThread acExit_undoes (fun r => by rw [ht, has_acExit]; rfl) (fun _ => by decide)
    (fun _ => rfl) (fun hne => absurd hf hne) (fun _ => by decide) (fun _ => by decide)
    (fun _ _ _ => by decide) (fun _ => by decide) (h.waiting_eq_none fun _ _ _ => by simp [ht])

/-- What is to be acquired next is not held. -/
lemma held_next {r : Res} {f : OnFailure} {rest : List (Instr × OnFailure)}
    (ht : s.thread = .loading ((.acquire r, f) :: rest)) : s.held r = false := by
  have hhas : s.thread.has r = false := by simp [ht, Thread.has_loading_cons]
  rcases r with _ | q | p | _
  · exact (h.held _ rfl).trans hhas
  · exact (h.held _ rfl).trans hhas
  · exact Bool.eq_false_iff.mpr fun hp => by simp [h.has_of_held p hp] at hhas
  · exact (h.held _ rfl).trans hhas

/-- A call of `ac_init` that succeeds, or need not. -/
lemma acquired {r : Res} {f : OnFailure} {rest : List (Instr × OnFailure)} {b : Bool}
    (ht : s.thread = .loading ((.acquire r, f) :: rest)) (hb : r.isProbe = false → b = true) :
    Life.Inv { (s.setHeld r b).setOk r b with thread := .loading rest } := by
  have hcode : (Instr.acquire r, f) :: rest <:+ acInit := by simpa [Thread.Code, ht] using h.code
  have hr := Thread.has_acquired hcode
  have hnext := h.held_next ht
  have hne : ∀ r', r' ≠ r → (Thread.loading rest).has r' = s.thread.has r' := fun r' hr' => by
    rw [ht, Thread.has_loading_cons]
    simp [Ne.symm hr']
  have hmono : ∀ r', s.thread.has r' = true → (Thread.loading rest).has r' = true := fun r' => by
    by_cases heq : r' = r
    · exact fun _ => heq ▸ hr
    · exact (hne r' heq).trans
  have hserved : s.thread.served = s.thread.has .misc := by rw [ht]; rfl
  have hbusy : s.thread.busy = s.thread.has .misc := by rw [ht]; rfl
  have hprot : s.thread.protects = s.thread.has .misc := by rw [ht]; rfl
  have hpolls : s.thread.polls = (Thread.loading rest).polls := by rw [ht]; rfl
  exact
    { h with
      code := (List.suffix_cons _ _).trans hcode
      held := fun r' hr' => by
        simp only [Life.setHeld, Life.setOk, Function.update_apply]
        split_ifs with heq
        · subst heq
          exact (hb hr').trans hr.symm
        · exact (h.held r' hr').trans (hne r' heq).symm
      has_of_held := fun p hp => by
        simp only [Life.setHeld, Life.setOk, Function.update_apply] at hp
        split_ifs at hp with heq
        · exact heq ▸ hr
        · exact hmono _ (h.has_of_held p hp)
      ok_of_held := fun p hp => by
        simp only [Life.setHeld, Life.setOk, Function.update_apply] at hp ⊢
        split_ifs at hp ⊢ with heq
        · exact hp
        · exact h.ok_of_held p hp
      held_of_ok := fun p hok hp => by
        simp only [Life.setHeld, Life.setOk, Function.update_apply] at hok ⊢
        split_ifs at hok ⊢ with heq
        · exact hok
        · exact h.held_of_ok p hok ((hne _ heq).symm.trans hp)
      polls := fun hp => hpolls.symm.trans (h.polls hp)
      handlers := fun p hp => by
        have hheld := h.handlers p hp
        have hpr : Res.probe p ≠ r := fun heq => by simp [heq, hnext] at hheld
        simpa [Life.setHeld, Life.setOk, hpr] using hheld
      served := fun he => hmono _ (hserved.symm.trans (h.served he))
      fds := fun hf => ⟨hmono _ (h.fds hf).1, fun _ _ => by simp⟩
      prots := fun hp => ⟨(h.prots hp).1, hmono _ (hprot.symm.trans (h.prots hp).2)⟩
      releasing := fun hr => ⟨(h.releasing hr).1, hmono _ (h.releasing hr).2⟩
      pins := fun hp => ⟨(h.pins hp).1, rfl⟩
      requests := fun w hw hne => hmono _ (hbusy.symm.trans (h.requests w hw hne))
      works := fun hw => ⟨(h.works hw).1, rfl⟩
      waiting := fun n hn => by
        have hnone := h.waiting_eq_none fun _ _ _ => by simp [ht]
        exact absurd (hnone.symm.trans hn) (by simp) }

lemma pollerQueued {f : OnFailure} {rest : List (Instr × OnFailure)}
    (ht : s.thread = .loading ((.queuePoller, f) :: rest)) :
    s.held .wq = true ∧ Life.Inv { s with poller := .timer, thread := .loading rest } := by
  have hcode : (Instr.queuePoller, f) :: rest <:+ acInit := by simpa [Thread.Code, ht] using h.code
  have htail : (Thread.loading rest).Code := (List.suffix_cons _ _).trans hcode
  have hpolls : (Thread.loading rest).polls = true := by
    have hnot := not_mem_of_suffix_acInit hcode
    simp only [Thread.polls, List.all_eq_true, decide_eq_true_eq]
    intro c hc heq
    exact hnot (heq ▸ List.mem_map_of_mem hc)
  have hhas : ∀ r, (Thread.loading rest).has r = s.thread.has r := fun r => by
    rw [ht, Thread.has_loading_cons]
    simp
  have hmisc : s.thread.served = (Thread.loading rest).has .misc := by rw [ht]; rfl
  have hmoved : Life.Inv { s with thread := .loading rest } :=
    h.setThread htail hhas (fun _ => hpolls) (fun he => hmisc.symm.trans (h.served he))
      (fun _ _ _ => by simp) (fun hp => hmisc.symm.trans (h.served (h.prots hp).1)) (fun _ => rfl)
      (fun w hw _ => hmisc.symm.trans (h.served (h.works (List.ne_nil_of_mem hw)).1)) (fun _ => rfl)
      (h.waiting_eq_none fun _ _ _ => by simp [ht])
  exact ⟨(h.held .wq rfl).trans ((hhas _).symm.trans (htail.inOrder.1 hpolls).1),
    { hmoved with polls := fun _ => hpolls }⟩

/-- A call of `ac_init` that fails for good. -/
lemma failed {r : Res} {undo : List Instr} {rest : List (Instr × OnFailure)}
    (ht : s.thread = .loading ((.acquire r, .fatal undo) :: rest)) :
    Life.Inv { s with thread := .undoing false undo } := by
  have hcode : (Instr.acquire r, OnFailure.fatal undo) :: rest <:+ acInit := by
    simpa [Thread.Code, ht] using h.code
  obtain ⟨hundo, hmisc, hhas, hpolls⟩ := (acInit_inOrder _ ((List.mem_tails _ _).mpr hcode)).2
  rw [← ht] at hmisc hhas hpolls
  have hnever : s.everProtected = false := Bool.eq_false_iff.mpr fun he => by
    have hs := h.served he
    rw [show s.thread.served = s.thread.has .misc by rw [ht]; rfl, hmisc] at hs
    cases hs
  exact
    { h with
      code := hundo
      held := fun r hr => (h.held r hr).trans (hhas r r.mem_all).symm
      has_of_held := fun p hp => (hhas _ (Res.mem_all _)).trans (h.has_of_held p hp)
      held_of_ok := fun p hok hp => h.held_of_ok p hok ((hhas _ (Res.mem_all _)).symm.trans hp)
      polls := fun hp => hpolls (h.polls hp)
      served := fun he => by simp [hnever] at he
      fds := fun hf => by simp [(h.fds hf).1] at hmisc
      prots := fun hp => by simp [(h.prots hp).1] at hnever
      releasing := fun hr => by simp [(h.releasing hr).1] at hnever
      pins := fun hp => by simp [(h.pins hp).1] at hnever
      requests := fun w hw => by simp [(h.works (List.ne_nil_of_mem hw)).1] at hnever
      works := fun hw => by simp [(h.works hw).1] at hnever
      waiting := fun n hn => by
        have hnone := h.waiting_eq_none fun _ _ _ => by simp [ht]
        exact absurd (hnone.symm.trans hn) (by simp) }

variable {exit : Bool} {i : Instr} {rest : List Instr}

lemma undoes (ht : s.thread = .undoing exit (i :: rest)) : Undoes exit (i :: rest) := by
  simpa [Thread.Code, ht] using h.code

/-- After the first flush there are no requests. -/
lemma no_requests (ht : s.thread = .undoing exit (i :: rest)) (hi : i ≠ .flush false)
    (hrest : (Thread.undoing exit rest).busy = false) : ∀ w ∈ s.works, w.2 = .removal := by
  intro w hw
  by_contra hne
  have hbusy := h.requests w hw hne
  rw [ht] at hbusy
  simp only [Thread.busy, List.mem_cons, hi.symm, false_or] at hbusy hrest
  simp [hbusy] at hrest

lemma polling_eq_false (ht : s.thread = .undoing exit (i :: rest)) (hi : i ≠ .disablePoller)
    (hrest : (Thread.undoing exit rest).polls = false) : s.polling = false := by
  by_contra hp
  have hpolls := h.polls (by simpa using hp)
  rw [ht] at hpolls
  simp only [Thread.polls, List.mem_cons, hi.symm, false_or] at hpolls hrest
  simp [hpolls] at hrest

/-- The thread has given something back. -/
lemma released {r : Res} (ht : s.thread = .undoing exit (.release r :: rest))
    (hidle : ∀ p, r = .probe p → s.handlers p = 0) (hnone : r = .wq → s.releasing = 0) :
    Life.Inv { s.setHeld r false with thread := .undoing exit rest } := by
  have hundo := h.undoes ht
  have hr : (Thread.undoing exit rest).has r = false := by
    simpa [Thread.has] using (List.nodup_cons.mp hundo.1).1
  have hne : ∀ r', r' ≠ r → (Thread.undoing exit rest).has r' = s.thread.has r' := fun r' hr' => by
    rw [ht, Thread.has_undoing_cons]
    simp [hr']
  have hpolls : s.thread.polls = (Thread.undoing exit rest).polls := by
    simp [ht, Thread.polls]
  have hbusy : s.thread.busy = (Thread.undoing exit rest).busy := by simp [ht, Thread.busy]
  have hprot : s.thread.protects = (Thread.undoing exit rest).protects := by
    simp [ht, Thread.protects]
  have hdrop : s.thread.dropsPins = (Thread.undoing exit rest).dropsPins := by
    simp [ht, Thread.dropsPins]
  have hdrain : s.thread.drains = (Thread.undoing exit rest).drains := by simp [ht, Thread.drains]
  have hserved : s.thread.served = (Thread.undoing exit rest).served := by rw [ht]; rfl
  exact
    { h with
      code := hundo.tail
      held := fun r' hr' => by
        simp only [Life.setHeld, Function.update_apply]
        split_ifs with heq
        · exact (heq ▸ hr).symm
        · exact (h.held r' hr').trans (hne r' heq).symm
      has_of_held := fun p hp => by
        simp only [Life.setHeld, Function.update_apply] at hp
        split_ifs at hp with heq
        exact (hne _ heq).trans (h.has_of_held p hp)
      ok_of_held := fun p hp => by
        simp only [Life.setHeld, Function.update_apply] at hp
        split_ifs at hp
        exact h.ok_of_held p hp
      held_of_ok := fun p hok hp => by
        have heq : Res.probe p ≠ r := fun heq => by simp [heq, hr] at hp
        simpa [Life.setHeld, heq] using h.held_of_ok p hok ((hne _ heq).symm.trans hp)
      polls := fun hp => hpolls.symm.trans (h.polls hp)
      handlers := fun p hp => by
        have heq : Res.probe p ≠ r := fun heq => hp (hidle p heq.symm)
        simpa [Life.setHeld, heq] using h.handlers p hp
      served := fun he => hserved.symm.trans (h.served he)
      fds := fun hf => absurd ht ((h.fds hf).2 _ _)
      prots := fun hp => ⟨(h.prots hp).1, hprot.symm.trans (h.prots hp).2⟩
      releasing := fun hr => ⟨(h.releasing hr).1,
        (hne _ fun heq => hr (hnone heq.symm)).trans (h.releasing hr).2⟩
      pins := fun hp => ⟨(h.pins hp).1, hdrop.symm.trans (h.pins hp).2⟩
      requests := fun w hw hw' => hbusy.symm.trans (h.requests w hw hw')
      works := fun hw => ⟨(h.works hw).1, hdrain.symm.trans (h.works hw).2⟩
      waiting := fun n hn => by
        have hnone := h.waiting_eq_none fun _ _ _ => by simp [ht]
        exact absurd (hnone.symm.trans hn) (by simp) }

/-- Nothing is given back that is not held or still in use. -/
lemma release_eq {r : Res} {s' : Life} (ht : s.thread = .undoing exit (.release r :: rest))
    (hrel : s.release r = some s') :
    s' = s.setHeld r false ∧ ∀ p, r = .probe p → s.handlers p = 0 := by
  have hundo := h.undoes ht
  have hnot : (Thread.undoing exit rest).has r = false := by
    simpa [Thread.has] using (List.nodup_cons.mp hundo.1).1
  have hhas : s.thread.has r = true := by simp [ht, Thread.has]
  obtain ⟨hpolls, -, hbusy, -⟩ := hundo.tail.inOrder
  cases r with
  | wq =>
    have hheld := (h.held .wq rfl).trans hhas
    have hpoll := h.polling_eq_false ht (by simp) (Bool.eq_false_iff.mpr fun hp => by
      simp [(hpolls hp).1] at hnot)
    simp only [Life.release, hheld, hpoll, Bool.not_true, Bool.or_self, complain_false,
      Option.some.injEq] at hrel
    exact ⟨hrel.symm, fun p hp => by cases hp⟩
  | pool q =>
    have hheld := (h.held (.pool q) rfl).trans hhas
    have hnone := h.no_requests ht (by simp) (Bool.eq_false_iff.mpr fun hb => by
      simp [(hbusy hb).1 q q.mem_all] at hnot)
    have hworks : s.works.any (·.2 = .request q) = false := by
      simp only [List.any_eq_false, decide_eq_true_eq]
      intro w hw
      simp [hnone w hw]
    simp only [Life.release, hheld, hworks, Bool.not_true, Bool.or_self, complain_false,
      Option.some.injEq] at hrel
    exact ⟨hrel.symm, fun p hp => by cases hp⟩
  | misc =>
    have hheld := (h.held .misc rfl).trans hhas
    simp only [Life.release, hheld, Bool.not_true, complain_false, Option.some.injEq] at hrel
    exact ⟨hrel.symm, fun p hp => by cases hp⟩
  | probe p =>
    unfold Life.release at hrel
    by_cases hok : s.ok p = true
    · have hheld := h.held_of_ok p hok hhas
      simp only [hok, if_true, hheld, Bool.not_true, complain_false] at hrel
      split_ifs at hrel with hidle
      cases hrel
      refine ⟨rfl, fun p' hp' => ?_⟩
      cases hp'
      exact hidle
    · have hheld : s.held (.probe p) = false :=
        Bool.eq_false_iff.mpr fun hp => hok (h.ok_of_held p hp)
      simp only [hok] at hrel
      cases hrel
      refine ⟨(setHeld_eq_self hheld).symm, fun p' hp' => ?_⟩
      cases hp'
      by_contra hne
      simp [h.handlers p hne] at hheld

/-- The thread has come to the end of a call that gives back nothing it has acquired. -/
lemma advance (ht : s.thread = .undoing exit (i :: rest)) (hi : ∀ r, .release r ≠ i)
    (hpoll : .disablePoller = i → s.polling = false) (hclear : .clearProtected = i → s.prots = 0)
    (hdrop : .dropPins = i → s.pins = 0)
    (hflush : .flush false = i → ∀ w ∈ s.works, w.2 = .removal)
    (hdrain : .drain = i → s.works = []) (hwait : s.waiting = none) :
    Life.Inv { s with thread := .undoing exit rest } := by
  refine h.setThread (h.undoes ht).tail (fun r => ?_) (fun hp => ?_) (fun he => ?_)
    (fun hf => absurd ht ((h.fds hf).2 _ _)) (fun hp => ?_) (fun hp => ?_) (fun w hw hne => ?_)
    (fun hw => ?_) hwait
  · simp [ht, Thread.has, hi]
  · have hne : .disablePoller ≠ i := fun heq => by simp [hpoll heq] at hp
    simpa [ht, Thread.polls, hne] using h.polls hp
  · simpa [ht, Thread.served] using h.served he
  · have hne : .clearProtected ≠ i := fun heq => hp (hclear heq)
    simpa [ht, Thread.protects, hne] using (h.prots hp).2
  · have hne : .dropPins ≠ i := fun heq => hp (hdrop heq)
    simpa [ht, Thread.dropsPins, hne] using (h.pins hp).2
  · have hne' : .flush false ≠ i := fun heq => hne (hflush heq w hw)
    simpa [ht, Thread.busy, hne'] using h.requests w hw hne
  · have hne : .drain ≠ i := fun heq => hw (hdrain heq)
    simpa [ht, Thread.drains, hne] using (h.works hw).2

/-- A call of `ac_exit` or of an error path. -/
lemma undo {s' : Life} (ht : s.thread = .undoing exit (i :: rest))
    (hnone : i = .release .wq → s.releasing = 0) (hs' : s.undo exit rest i = some s') :
    s'.Inv := by
  have hundo := h.undoes ht
  have hnot := (List.nodup_cons.mp hundo.1).1
  unfold Life.undo at hs'
  cases i with
  | acquire r => cases hs'
  | queuePoller => cases hs'
  | release r =>
    obtain ⟨s₁, hs₁, rfl⟩ := Option.map_eq_some_iff.mp hs'
    obtain ⟨rfl, hidle⟩ := h.release_eq ht hs₁
    exact h.released ht hidle fun heq => hnone (heq ▸ rfl)
  | disablePoller =>
    have hoff : Life.polling { s with poller := .disabled } = false := rfl
    have hmoved := (h.setPoller .disabled fun hp => by simp [hoff] at hp).advance ht
      (by simp) (fun _ => hoff) (by simp) (by simp) (by simp) (by simp)
      (h.waiting_eq_none fun _ _ _ => by simp [ht])
    simp only at hs'
    split at hs'
    · cases hs'
    · cases hs'
      exact hmoved
  | forget ret =>
    cases hs'
    have hmoved := h.advance ht (by simp) (by simp) (by simp) (by simp) (by simp) (by simp)
      (h.waiting_eq_none fun _ _ _ => by simp [ht])
    have hkept : ∀ p, s.held (.probe p) = true → p.isRet ≠ ret := fun p hp heq => by
      -- a probe that is held has its flag cleared later
      have hflag := (hundo.tail.inOrder.2.1 p (mem_acProbes p) (hmoved.has_of_held p hp)).2.2.1
      exact hnot (heq ▸ by simpa [Thread.flags] using hflag)
    exact
      { hmoved with
        ok_of_held := fun p hp => by simpa [h.ok_of_held p hp] using hkept p hp
        held_of_ok := fun p hok hp => hmoved.held_of_ok p (Bool.and_eq_true_iff.mp hok).1 hp }
  | flush again =>
    simp only at hs'
    split_ifs at hs' with hw
    cases hs'
    exact
      { h with
        waiting := fun n hn => by
          cases hn
          exact ⟨exit, again, rest, ht, fun w hw _ => h.items w hw⟩ }
  | clearProtected =>
    have hreqs := h.no_requests ht (by simp) (Bool.eq_false_iff.mpr fun hb => by
      have hp := (hundo.tail.inOrder.2.2.1 hb).2.1
      exact hnot (by simpa [Thread.protects] using (Bool.and_eq_true_iff.mp hp).2))
    have hfds : s.fds = 0 := by
      by_contra hf
      exact (h.fds hf).2 _ _ ht
    have hbad : (s.works.any (·.2 ≠ .removal) || s.fds != 0) = false := by
      simpa [hfds] using fun a b hab => hreqs (a, b) hab
    rw [hbad, complain_false] at hs'
    cases hs'
    have hcleared : Life.Inv { s with prots := 0 } := { h with prots := fun hp => absurd rfl hp }
    exact hcleared.advance ht (by simp) (by simp) (fun _ => rfl) (by simp) (by simp) (by simp)
      (h.waiting_eq_none fun _ _ _ => by simp [ht])
  | dropPins =>
    have hidle : ∀ p, s.handlers p = 0 := fun p => by
      by_contra hp
      -- a probe that is held is unregistered before the pins are dropped
      have hhas : (Thread.undoing exit rest).has (.probe p) = true := by
        simpa [ht, Thread.has] using h.has_of_held p (h.handlers p hp)
      exact hnot (by
        simpa [Thread.dropsPins] using (hundo.tail.inOrder.2.1 p (mem_acProbes p) hhas).2.2.2.2)
    have hbad : (acKretprobes.any fun k => s.handlers (.kretprobe k) != 0) = false := by
      simp [hidle]
    rw [hbad, complain_false] at hs'
    cases hs'
    have hdropped : Life.Inv { s with pins := 0 } := { h with pins := fun hp => absurd rfl hp }
    exact hdropped.advance ht (by simp) (by simp) (by simp) (fun _ => rfl) (by simp) (by simp)
      (h.waiting_eq_none fun _ _ _ => by simp [ht])
  | drain =>
    simp only at hs'
    split_ifs at hs' with hw
    cases hs'
    exact h.advance ht (by simp) (by simp) (by simp) (by simp) (by simp) (fun _ => hw)
      (h.waiting_eq_none fun _ _ _ => by simp [ht])

/-- `flush_workqueue` has waited for every request. -/
lemma flushed {again : Bool} {n : ℕ} (ht : s.thread = .undoing exit (.flush again :: rest))
    (hn : s.waiting = some n) (hall : s.works.all (n ≤ ·.1) = true) :
    Life.Inv { s with waiting := none, thread := .undoing exit rest } := by
  obtain ⟨-, -, -, -, hlt⟩ := h.waiting n hn
  have hreqs : ∀ w ∈ s.works, w.2 = .removal := fun w hw => by
    by_contra hne
    exact absurd (hlt w hw hne) (Nat.not_lt.mpr (by simpa using List.all_eq_true.mp hall w hw))
  have hdone : Life.Inv { s with waiting := none } := { h with waiting := fun n hn => by cases hn }
  exact hdone.advance ht (by simp) (by simp) (by simp) (by simp) (fun _ => hreqs) (by simp) rfl

/-- A call of `ac_init`. -/
lemma load {success : Bool} {rest : List (Instr × OnFailure)} {f : OnFailure} {s' : Life}
    (ht : s.thread = .loading ((i, f) :: rest)) (hs' : s.load success rest f i = some s') :
    s'.Inv := by
  unfold Life.load at hs'
  cases i with
  | acquire r =>
    simp only at hs'
    cases success with
    | true =>
      cases hs'
      exact h.acquired ht fun _ => rfl
    | false =>
      cases f with
      | impossible => cases hs'
      | fatal undo =>
        cases hs'
        exact h.failed ht
      | optional =>
        cases hs'
        have hcode : (Instr.acquire r, OnFailure.optional) :: rest <:+ acInit := by
          simpa [Thread.Code, ht] using h.code
        have hprobe := isProbe_of_optional (hcode.subset List.mem_cons_self)
        have hmoved := h.acquired (b := false) ht fun hr => by simp [hprobe] at hr
        rwa [setHeld_eq_self (h.held_next ht)] at hmoved
  | queuePoller =>
    obtain ⟨hwq, hq⟩ := h.pollerQueued ht
    simp only [hwq, Bool.not_true, complain_false, Option.some.injEq] at hs'
    exact hs' ▸ hq
  | _ => cases hs'

lemma step {a : LifeAct} {s' : Life} (hok : s.noneReleasing a = true)
    (hs' : s.step a = some s') : s'.Inv := by
  unfold Life.step at hs'
  cases a with
  | call success =>
    simp only at hs'
    split at hs'
    · rename_i ht
      cases hs'
      exact h.loaded ht
    · rename_i ht
      exact h.load ht hs'
    · rename_i ht
      exact h.undo ht (fun heq => by simpa [Life.noneReleasing, ht, heq] using hok) hs'
    · cases hs'
  | flushed =>
    simp only at hs'
    split at hs'
    · rename_i ht hn
      split_ifs at hs' with hall
      cases hs'
      exact h.flushed ht hn hall
    · cases hs'
  | unload =>
    simp only at hs'
    split_ifs at hs' with hcond
    cases hs'
    exact h.unload hcond.1 hcond.2
  | openDev =>
    simp only at hs'
    split at hs'
    · cases hs'
    · rename_i hthread
      split_ifs at hs' with hmisc
      cases hs'
      exact h.open_close fun _ => ⟨(h.held .misc rfl).symm.trans hmisc, hthread⟩
  | closeDev =>
    simp only at hs'
    split_ifs at hs' with hf
    cases hs'
    exact h.open_close fun _ => h.fds hf
  | addProc =>
    simp only at hs'
    split_ifs at hs' with hf
    cases hs'
    obtain ⟨hserved, hprot⟩ := h.served_of_fds hf
    exact h.setProts (fun _ => hserved) (fun _ => rfl) fun _ => ⟨rfl, hprot⟩
  | delProc =>
    simp only at hs'
    split_ifs at hs' with hf
    cases hs'
    exact { h with prots := fun hp => h.prots fun h0 => hp (by simp [h0]) }
  | mmExit =>
    simp only at hs'
    split_ifs at hs' with hp
    cases hs'
    exact h.mmExit hp
  | mmQueue =>
    simp only at hs'
    split_ifs at hs' with hr
    obtain ⟨he, hwq⟩ := h.releasing hr
    rw [h.releasing_held hr, Bool.not_true, complain_false] at hs'
    cases hs'
    exact { h.enqueue he hwq fun hne => absurd rfl hne with releasing := fun _ => ⟨he, hwq⟩ }
  | enter p =>
    simp only at hs'
    split_ifs at hs' with hp
    cases hs'
    exact h.setHandlers fun _ => hp
  | queue p memory =>
    simp only at hs'
    split_ifs at hs' with hcond hmem
    · obtain ⟨hp, he⟩ := not_or.mp hcond
      have he : s.everProtected = true := by simpa using he
      obtain ⟨hwq, hpool, hbusy, -⟩ := h.handler_held hp
      simp only [hwq, hpool, Bool.not_true, complain_false] at hs'
      cases hs'
      exact h.enqueue he ((h.held .wq rfl).symm.trans hwq) fun _ =>
        ⟨hbusy he, h.waiting_eq_none_of_handler he hp⟩
    · obtain ⟨hp, -⟩ := not_or.mp hcond
      obtain ⟨-, hpool, -⟩ := h.handler_held hp
      simp only [hpool, Bool.not_true, complain_false] at hs'
      cases hs'
      exact h
  | leave p =>
    simp only at hs'
    split_ifs at hs' with hp
    cases hs'
    exact h.setHandlers fun _ => h.handlers p hp
  | pin k =>
    simp only at hs'
    split_ifs at hs' with hcond
    cases hs'
    obtain ⟨hp, -, he⟩ := by simpa only [not_or] using hcond
    exact { h with pins := fun _ => ⟨by simpa using he, (h.handler_held hp).2.2.2⟩ }
  | unpin k =>
    simp only at hs'
    split_ifs at hs' with hcond
    cases hs'
    obtain ⟨-, -, hp⟩ := by simpa only [not_or] using hcond
    exact { h with pins := fun _ => h.pins hp }
  | work item registers drops =>
    simp only at hs'
    split_ifs at hs' with hitem
    split at hs'
    · rename_i p hp
      obtain ⟨hpool, hprot⟩ := h.request_held hitem (by simp [hp])
      rw [hpool, Bool.not_true, complain_false] at hs'
      cases hs'
      exact h.work hitem fun _ => hprot
    · cases hs'
      exact h.work hitem fun hne => (h.prots hne).2
  | pollFire =>
    simp only at hs'
    split at hs'
    · rename_i hp
      have hpoll : s.polling = true := by simp [Life.polling, hp]
      simp only [(h.polling_held hpoll).1, Bool.not_true, complain_false] at hs'
      cases hs'
      exact h.setPoller _ fun _ => hpoll
    · cases hs'
  | pollNext =>
    simp only at hs'
    split at hs'
    · rename_i hp
      have hpoll : s.polling = true := by simp [Life.polling, hp]
      simp only [(h.polling_held hpoll).1, Bool.not_true, complain_false] at hs'
      cases hs'
      exact h.setPoller _ fun _ => hpoll
    · rename_i k rest hp
      have hpoll : s.polling = true := by simp [Life.polling, hp]
      have hread : (s.ok (.kretprobe k) && !s.held (.probe (.kretprobe k))) = false := by
        cases hok : s.ok (.kretprobe k) with
        | false => rfl
        | true => simp [(h.polling_held hpoll).2 _ hok]
      rw [hread, complain_false] at hs'
      cases hs'
      exact h.setPoller _ fun _ => hpoll
    · cases hs'

end Life.Inv

/-- In every interleaving of loading and unloading with the handlers, the workers, the poller, the
users of the device and protected address spaces that go away, whichever calls of `ac_init` fail:
nothing is used that is not there, nothing is given back that is in use or was not acquired, and
when `ac_exit` or a failed `ac_init` returns nothing of the module is left. This is for the runs in
which no `ac_mmu_release` is about to queue its work when `destroy_workqueue` is called. -/
theorem acInit_acExit_balanced {acts : List LifeAct} {s : Life}
    (hrun : run (restrict Life.noneReleasing Life.step) Life.init acts = some s) :
    s.fault = false ∧ ∀ exit, s.thread = .undoing exit [] → s.Gone := by
  have h : s.Inv := run_invariant (fun _ _ _ h hstep => by
    obtain ⟨hok, hstep⟩ := restrict_eq_some.mp hstep
    exact h.step hok hstep) Life.Inv.init hrun
  refine ⟨h.fault, fun exit ht => ?_⟩
  have hhas : ∀ r, s.thread.has r = false := fun r => by simp [ht, Thread.has]
  have hprobe : ∀ p, s.held (.probe p) = false := fun p =>
    Bool.eq_false_iff.mpr fun hp => by simpa [hhas] using h.has_of_held p hp
  exact
    { held := fun r => by
        cases hr : r.isProbe with
        | false => exact (h.held r hr).trans (hhas r)
        | true =>
          cases r with
          | probe p => exact hprobe p
          | _ => cases hr
      handlers := fun p => by
        by_contra hp
        simpa [hprobe] using h.handlers p hp
      works := by
        by_contra hw
        simpa [ht, Thread.drains] using (h.works hw).2
      polling := Bool.eq_false_iff.mpr fun hp => by simpa [ht, Thread.polls] using h.polls hp
      fds := by
        by_contra hf
        exact (h.fds hf).2 _ _ ht
      prots := by
        by_contra hp
        simpa [ht, Thread.protects] using (h.prots hp).2
      releasing := by
        by_contra hr
        simpa [hhas] using (h.releasing hr).2
      pins := by
        by_contra hp
        simpa [ht, Thread.dropsPins] using (h.pins hp).2 }

/-- Loading without the probe of x32 `ptrace`; a protected process forks, another is in `execve`,
and the module is unloaded while the request of the child is still queued. A protected process
exits between the flushes, and its removal is queued during the second one. -/
def lifeRun : List LifeAct := List.flatten
  [List.replicate 5 (.call true), [.call false], List.replicate 14 (.call true),
    [.openDev, .addProc, .enter (.kretprobe .clone), .queue (.kretprobe .clone) true,
      .leave (.kretprobe .clone), .enter (.kretprobe .execve), .pin .execve,
      .leave (.kretprobe .execve), .pollFire, .closeDev, .unload, .call true],
    List.replicate 8 .pollNext, List.replicate 19 (.call true),
    [.work (0, .request .add) true false, .flushed, .mmExit, .call true, .call true, .mmQueue,
      .flushed, .call true, .work (1, .removal) false false, .call true, .call true, .call true]]

lemma thread_lifeRun :
    (run (restrict Life.noneReleasing Life.step) Life.init lifeRun).map Life.thread =
      some (.undoing true []) := by
  decide +kernel

theorem acInit_acExit_balanced_lifeRun :
    ∃ s, run (restrict Life.noneReleasing Life.step) Life.init lifeRun = some s ∧
      s.thread = .undoing true [] ∧ s.Gone := by
  obtain ⟨s, hs, ht⟩ := Option.map_eq_some_iff.mp thread_lifeRun
  exact ⟨s, hs, ht, (acInit_acExit_balanced hs).2 true ht⟩

end Anticheat.Device
