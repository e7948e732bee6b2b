import Anticheat.Lib.Linearized
import Anticheat.Lib.Run
import Mathlib.Algebra.Group.Int.Defs
import Mathlib.Algebra.GroupWithZero.Nat

/-!
# Pinning the module

`AC_IOCTL_LOCK` and `AC_IOCTL_UNLOCK` as any number of callers run them at the same time. Each
atomic operation on `ac_lock_count` and each call of `try_module_get` and `module_put` is a step.
A test of a local variable belongs to the step that read it.
-/

namespace Anticheat.Device

open Linearize Transition

/-- `AC_LOCK_MAX` -/
def acLockMax : ℕ := 16

/-- The two requests. `live` is what `try_module_get` answers, which fails once the module is on
its way out. -/
inductive PinOp where
  | lock (live : Bool)
  | unlock
  deriving DecidableEq, Repr

/-- What they return: 0 or `-EBUSY`. -/
inductive PinRet where
  | ok
  | busy
  deriving DecidableEq, Repr

/-- Where a call is. -/
inductive PinPc where
  | entered
  /-- `LOCK` has its reference and is before `atomic_read` -/
  | referenced
  /-- `LOCK` is before `atomic_try_cmpxchg` with this `prev` -/
  | trying (prev : ℕ)
  /-- `LOCK` found the bound reached and is before `module_put` -/
  | refused
  /-- `UNLOCK` lowered the count and is before `module_put` -/
  | lowered
  | returned (r : PinRet)
  deriving DecidableEq, Repr

structure PinCall where
  op : PinOp
  pc : PinPc
  deriving DecidableEq, Repr

/-- `ac_lock_count`, and the references on the module that `LOCK` took less those given back. -/
structure Pin where
  lockCount : ℕ
  refs : ℤ
  deriving DecidableEq, Repr

/-- The head of the `do` loop of `LOCK`. -/
def lockLoop (prev : ℕ) : PinPc := if acLockMax ≤ prev then .refused else .trying prev

/-- The next step of a call. -/
def PinCall.next (m : Pin) (c : PinCall) : Option (PinPc × Pin) :=
  match c.op, c.pc with
  | .lock live, .entered =>
    some (if live then (.referenced, { m with refs := m.refs + 1 }) else (.returned .busy, m))
  | .lock _, .referenced => some (lockLoop m.lockCount, m)
  | .lock _, .trying prev =>
    -- a failed exchange leaves the count it found in `prev`
    some (if m.lockCount = prev then (.returned .ok, { m with lockCount := prev + 1 })
      else (lockLoop m.lockCount, m))
  | .lock _, .refused => some (.returned .busy, { m with refs := m.refs - 1 })
  | .unlock, .entered =>
    some (if 0 < m.lockCount then (.lowered, { m with lockCount := m.lockCount - 1 })
      else (.returned .ok, m))
  | .unlock, .lowered => some (.returned .ok, { m with refs := m.refs - 1 })
  | _, _ => none

/-- The answer of a call, from the step on that decides it. -/
def PinCall.ret (c : PinCall) : Option PinRet :=
  match c.pc with
  | .entered | .referenced | .trying _ => none
  | .refused => some .busy
  | .lowered => some .ok
  | .returned r => some r

/-- Whether a call has a reference on the module that is not counted. -/
def PinCall.holds (c : PinCall) : ℕ :=
  match c.pc with
  | .referenced | .trying _ | .refused | .lowered => 1
  | .entered | .returned _ => 0

/-- Whether the next step of a call is `module_put`. -/
def PinCall.puts (c : PinCall) : Bool := c.pc = .refused || c.pc = .lowered

structure PinSys where
  mod : Pin
  calls : List PinCall
  log : List (Entry PinOp PinRet)
  deriving DecidableEq, Repr

inductive PinAct where
  | call (op : PinOp)
  | step (i : ℕ)
  deriving DecidableEq, Repr

def PinSys.init : PinSys := ⟨⟨0, 0⟩, [], []⟩

def PinSys.step (s : PinSys) : PinAct → Option PinSys
  | .call op => some { s with calls := s.calls ++ [⟨op, .entered⟩] }
  | .step i => do
    let c ← s.calls[i]?
    let (pc, mod) ← c.next s.mod
    let c' : PinCall := { c with pc }
    some ⟨mod, s.calls.set i c', note s.log i c.op c.ret c'.ret⟩

/-- What the two requests are for: a bounded count, raised and lowered in one step. -/
def pinCount (n : ℕ) : PinOp → ℕ × PinRet
  | .lock false => (n, .busy)
  | .lock true => if n < acLockMax then (n + 1, .ok) else (n, .busy)
  | .unlock => (n - 1, .ok)

def pinSpec (n : ℕ) (op : PinOp) (n' : ℕ) (r : PinRet) : Prop := pinCount n op = (n', r)

/-! ### What one step does -/

/-- What is known of a call from where it is: past `try_module_get` the module was live, and an
exchange is only tried below the bound. -/
structure PinCall.Ok (c : PinCall) : Prop where
  live : c.op = .lock false → c.pc = .entered ∨ c.pc = .returned .busy
  prev_lt : ∀ prev, c.pc = .trying prev → prev < acLockMax

lemma PinCall.ok_entered (op : PinOp) : PinCall.Ok ⟨op, .entered⟩ where
  live _ := .inl rfl
  prev_lt _ h := by cases h

/-- The steps, with what they do to the count and to the answer of the call. -/
structure PinStep (m m' : Pin) (c c' : PinCall) : Prop where
  op : c'.op = c.op
  ok : c'.Ok
  refs : m'.refs + m.lockCount + c.holds = m.refs + m'.lockCount + c'.holds
  effect : (c'.ret = c.ret ∧ m'.lockCount = m.lockCount) ∨
    ∃ r, c.ret = none ∧ c'.ret = some r ∧ pinSpec m.lockCount c.op m'.lockCount r

/-- After a look at the count `LOCK` goes on, or it is refused by the count it saw. -/
lemma pinStep_lockLoop {m : Pin} {c : PinCall} (hop : c.op = .lock true) (hret : c.ret = none)
    (hholds : c.holds = 1) : PinStep m m c { c with pc := lockLoop m.lockCount } := by
  unfold lockLoop
  split_ifs with hmax
  · refine ⟨rfl, ⟨by simp [hop], by simp⟩, by rw [hholds]; rfl, .inr ?_⟩
    exact ⟨.busy, hret, rfl, by simp [hop, pinSpec, pinCount, Nat.not_lt.mpr hmax]⟩
  · refine ⟨rfl, ⟨by simp [hop], ?_⟩, by rw [hholds]; rfl, .inl ⟨hret.symm, rfl⟩⟩
    rintro prev ⟨⟩
    exact Nat.lt_of_not_le hmax

lemma pinStep_of_next {m m' : Pin} {c : PinCall} {pc : PinPc} (hc : c.Ok)
    (h : c.next m = some (pc, m')) : PinStep m m' c { c with pc } := by
  obtain ⟨op, pc₀⟩ := c
  cases op with
  | lock live =>
    -- past the first step the module was live
    have hlive : pc₀ ≠ .entered → (∀ r, pc₀ ≠ .returned r) → live = true := by
      intro hne hret
      by_contra hdead
      rcases hc.live (by simp [hdead]) with h | h
      · exact hne h
      · exact hret _ h
    cases pc₀ with
    | entered =>
      cases live with
      | false =>
        cases h
        exact ⟨rfl, ⟨fun _ => .inr rfl, by simp⟩, by simp [PinCall.holds],
          .inr ⟨.busy, rfl, rfl, rfl⟩⟩
      | true =>
        cases h
        refine ⟨rfl, ⟨by simp, by simp⟩, ?_, .inl ⟨rfl, rfl⟩⟩
        simp only [PinCall.holds]
        omega
    | referenced =>
      cases hlive (by simp) (by simp)
      cases h
      exact pinStep_lockLoop rfl rfl rfl
    | trying prev =>
      cases hlive (by simp) (by simp)
      have hlt := hc.prev_lt prev rfl
      simp only [PinCall.next, Option.some.injEq] at h
      split_ifs at h with heq
      · cases h
        subst heq
        refine ⟨rfl, ⟨by simp, by simp⟩, ?_, .inr ⟨.ok, rfl, rfl, ?_⟩⟩
        · simp only [PinCall.holds]
          omega
        · simp [pinSpec, pinCount, hlt]
      · cases h
        exact pinStep_lockLoop rfl rfl rfl
    | refused =>
      cases h
      refine ⟨rfl, ⟨fun _ => .inr rfl, by simp⟩, ?_, .inl ⟨rfl, rfl⟩⟩
      simp only [PinCall.holds]
      omega
    | lowered => cases h
    | returned r => cases h
  | unlock =>
    cases pc₀ with
    | entered =>
      simp only [PinCall.next, Option.some.injEq] at h
      split_ifs at h with hpos
      · cases h
        refine ⟨rfl, ⟨by simp, by simp⟩, ?_, .inr ⟨.ok, rfl, rfl, rfl⟩⟩
        simp only [PinCall.holds]
        omega
      · cases h
        refine ⟨rfl, ⟨by simp, by simp⟩, by simp [PinCall.holds], .inr ⟨.ok, rfl, rfl, ?_⟩⟩
        obtain hzero := Nat.eq_zero_of_not_pos hpos
        simp [pinSpec, pinCount, hzero]
    | lowered =>
      cases h
      refine ⟨rfl, ⟨by simp, by simp⟩, ?_, .inl ⟨rfl, rfl⟩⟩
      simp only [PinCall.holds]
      omega
    | referenced => cases h
    | trying _ => cases h
    | refused => cases h
    | returned r => cases h

/-! ### Whole runs -/

/-- What holds at any time: the references are those that are counted and those of the calls under
way, and the calls behave like operations on the bounded count. -/
structure PinSys.Inv (s : PinSys) : Prop where
  refs : s.mod.refs = s.mod.lockCount + tally PinCall.holds s.calls
  le : s.mod.lockCount ≤ acLockMax
  ok : ∀ (i : ℕ) (c : PinCall), s.calls[i]? = some c → c.Ok
  lin : Linearized pinSpec 0 PinCall.op PinCall.ret s.calls s.log s.mod.lockCount

lemma pinCount_le {n : ℕ} (hn : n ≤ acLockMax) (op : PinOp) : (pinCount n op).1 ≤ acLockMax := by
  cases op with
  | lock live =>
    cases live
    · exact hn
    · unfold pinCount
      split_ifs with h
      · exact h
      · exact hn
  | unlock => exact (Nat.sub_le _ _).trans hn

lemma PinSys.inv_init : PinSys.init.Inv where
  refs := rfl
  le := Nat.zero_le _
  ok _ _ h := by simp [PinSys.init] at h
  lin := .nil

lemma PinSys.Inv.step {s s' : PinSys} {a : PinAct} (hs : s.Inv) (h : s.step a = some s') :
    s'.Inv := by
  cases a with
  | call op =>
    cases h
    refine ⟨?_, hs.le, forall_getElem?_concat hs.ok (PinCall.ok_entered op), hs.lin.concat rfl⟩
    simpa [tally_concat, PinCall.holds] using hs.refs
  | step i =>
    obtain ⟨c, hi, h⟩ := Option.bind_eq_some_iff.mp h
    obtain ⟨⟨pc, mod⟩, hnext, h⟩ := Option.bind_eq_some_iff.mp h
    cases h
    obtain ⟨hop, hok, hrefs, heffect⟩ := pinStep_of_next (hs.ok i c hi) hnext
    refine ⟨?_, ?_, forall_getElem?_set hs.ok hi hok, hs.lin.advance hi hop heffect⟩
    · have htally := tally_set (f := PinCall.holds) hi { c with pc }
      have := hs.refs
      simp only at hrefs htally ⊢
      omega
    · rcases heffect with ⟨-, heq⟩ | ⟨r, -, -, hspec⟩
      · exact heq ▸ hs.le
      · have hle := pinCount_le hs.le c.op
        rwa [show pinCount _ _ = _ from hspec] at hle

lemma PinSys.inv_of_run {as : List PinAct} {s : PinSys} (h : run PinSys.step .init as = some s) :
    s.Inv :=
  run_invariant (fun _ _ _ hs hst => PinSys.Inv.step hs hst) PinSys.inv_init h

/-- The log only grows. -/
lemma PinSys.log_isPrefix_of_step {s s' : PinSys} {a : PinAct} (h : s.step a = some s') :
    s.log <+: s'.log := by
  cases a with
  | call op =>
    cases h
    exact List.prefix_rfl
  | step i =>
    obtain ⟨c, -, h⟩ := Option.bind_eq_some_iff.mp h
    obtain ⟨⟨pc, mod⟩, -, h⟩ := Option.bind_eq_some_iff.mp h
    cases h
    exact isPrefix_note ..

lemma PinCall.holds_of_puts {c : PinCall} (h : c.puts = true) : c.holds = 1 := by
  simp only [PinCall.puts, Bool.or_eq_true, decide_eq_true_eq] at h
  rcases h with h | h <;> simp [PinCall.holds, h]

/-- However the calls interleave, `ac_lock_count` stays within `AC_LOCK_MAX`, the references on the
module are the counted ones and those of the calls under way, no call gives back a reference that
`LOCK` did not take, and once all calls have returned the module is held by as many references as
are counted. -/
theorem pin_refs_balanced {as : List PinAct} {s : PinSys}
    (h : run PinSys.step .init as = some s) :
    s.mod.lockCount ≤ acLockMax ∧
      s.mod.refs = s.mod.lockCount + tally PinCall.holds s.calls ∧
      (∀ c ∈ s.calls, c.puts = true → 0 < s.mod.refs) ∧
      (s.mod.lockCount : ℤ) ≤ s.mod.refs ∧
      ((∀ c ∈ s.calls, ∃ r, c.pc = .returned r) → s.mod.refs = s.mod.lockCount) := by
  have hs := PinSys.inv_of_run h
  refine ⟨hs.le, hs.refs, ?_, ?_, ?_⟩
  · intro c hc hput
    obtain ⟨i, hi⟩ := List.mem_iff_getElem?.mp hc
    have hle := le_tally (f := PinCall.holds) hi
    rw [PinCall.holds_of_puts hput] at hle
    have := hs.refs
    omega
  · have := hs.refs
    omega
  · intro hret
    have hzero : tally PinCall.holds s.calls = 0 := by
      refine tally_eq_zero fun c hc => ?_
      obtain ⟨r, hr⟩ := hret c hc
      simp [PinCall.holds, hr]
    rw [hs.refs, hzero]
    simp

/-- However the calls interleave, they answer like a count that is raised up to `AC_LOCK_MAX` and
lowered down to 0 one call at a time, in an order in which a call that had returned before another
one began comes first. -/
theorem pin_linearizable {as bs : List PinAct} {s t : PinSys}
    (hs : run PinSys.step .init as = some s) (ht : run PinSys.step s bs = some t) :
    Linearize.History pinSpec 0 t.log t.mod.lockCount ∧
      (t.log.map Entry.call).Nodup ∧
      (∀ i c r, t.calls[i]? = some c → c.pc = .returned r → ⟨i, c.op, r⟩ ∈ t.log) ∧
      ∃ later, t.log = s.log ++ later ∧ ∀ e ∈ s.log, e.call < s.calls.length := by
  have hinv := PinSys.inv_of_run hs
  have hinv' : t.Inv := run_invariant (fun _ _ _ hs hst => PinSys.Inv.step hs hst) hinv ht
  refine ⟨hinv'.lin.history, hinv'.lin.nodup, ?_, ?_⟩
  · intro i c r hi hr
    exact hinv'.lin.mem_log hi (by simp [PinCall.ret, hr])
  · obtain ⟨later, hlater⟩ : s.log <+: t.log :=
      run_invariant (P := fun u => s.log <+: u.log)
        (fun _ _ _ hle hst => hle.trans (PinSys.log_isPrefix_of_step hst)) List.prefix_rfl ht
    refine ⟨later, hlater.symm, fun e he => ?_⟩
    obtain ⟨c, hc, -⟩ := (hinv.lin.mem_iff e.call e.op e.ret).mp he
    exact (List.getElem?_eq_some_iff.mp hc).1

/-- Two `LOCK` calls that read the same count: the second exchange fails and is tried again. -/
def pinRace : List PinAct :=
  [.call (.lock true), .call (.lock true), .step 0, .step 1, .step 0, .step 1, .step 1, .step 0,
    .step 0]

def pinRaced : PinSys where
  mod := ⟨2, 2⟩
  calls := [⟨.lock true, .returned .ok⟩, ⟨.lock true, .returned .ok⟩]
  log := [⟨1, .lock true, .ok⟩, ⟨0, .lock true, .ok⟩]

lemma run_pinRace : run PinSys.step .init pinRace = some pinRaced := by decide

theorem pin_refs_balanced_race : pinRaced.mod.refs = pinRaced.mod.lockCount :=
  (pin_refs_balanced run_pinRace).2.2.2.2 (by simp [pinRaced])

theorem pin_linearizable_race : Linearize.History pinSpec 0 pinRaced.log 2 :=
  (pin_linearizable (run_nil PinSys.init) run_pinRace).1

end Anticheat.Device
