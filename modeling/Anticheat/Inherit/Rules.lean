import Anticheat.Handoff.Rules
import Anticheat.Inherit.Basic
import Anticheat.Registry.Rules

/-!
# What a step of the system can do

`Inherit.step` inverted into rules. A rule names the step of the handlers or of the registry that
it contains.
-/

namespace Anticheat

namespace Inherit

/-- The branches of a step. -/
inductive Rule (s : Inherit) : InheritAct → Inherit → Prop where
  | root (t : ℕ) (th : Thread) (ht : s.tasks t = some th) (hprot : s.protects th.mm = true) :
      s.Rule (.task t .root)
        { s with
          tasks := fun u => (s.tasks u).map fun uh =>
            { uh with tree := uh.tree || uh.tgid == th.tgid } }
  | fork (t : ℕ) (th : Thread) (pid : ℤ) (kind : ForkKind) (probed : Bool)
      (ht : s.tasks t = some th) (hsys : th.sys = .user)
      (hpid : s.anyTask (fun u => u.pid == pid || u.tgid == pid) = false) :
      s.Rule (.task t (.fork pid kind probed)) (s.fork t th pid kind probed)
  | cloneIgnore (t : ℕ) (th : Thread) (child : ℤ) (ht : s.tasks t = some th)
      (hsys : th.sys = .clone child .body) (hprot : s.protects th.mm = false) :
      s.Rule (.task t .cloneCheck) (s.setSys t th .user)
  | cloneCheck (t : ℕ) (th : Thread) (child : ℤ) (ht : s.tasks t = some th)
      (hsys : th.sys = .clone child .body) (hprot : s.protects th.mm = true) :
      s.Rule (.task t .cloneCheck) (s.setSys t th (.clone child .checked))
  | cloneLost (t : ℕ) (th : Thread) (child : ℤ) (ht : s.tasks t = some th)
      (hsys : th.sys = .clone child .checked) (hfind : s.findTask child = none) :
      s.Rule (.task t .cloneFind) (s.setSys t th .user)
  | cloneFind (t : ℕ) (th : Thread) (child : ℤ) (u : ℕ) (ht : s.tasks t = some th)
      (hsys : th.sys = .clone child .checked) (hfind : s.findTask child = some u) :
      s.Rule (.task t .cloneFind) (s.setSys t th (.clone child (.found u)))
  | cloneGone (t : ℕ) (th : Thread) (child : ℤ) (u : ℕ) (y : CloneId) (ht : s.tasks t = some th)
      (hsys : th.sys = .clone child (.found u)) (hu : s.tasks u = none) :
      s.Rule (.task t (.cloneGet y)) (s.setSys t th .user)
  | cloneSame (t : ℕ) (th : Thread) (child : ℤ) (u : ℕ) (y : CloneId) (c : Thread)
      (h' : Handoff) (ht : s.tasks t = some th) (hsys : th.sys = .clone child (.found u))
      (hu : s.tasks u = some c) (hmm : c.mm = th.mm)
      (hh : s.h.step (.cloneGet y c.mm th.mm c.pid c.comm) = some h') :
      s.Rule (.task t (.cloneGet y)) ({ s with h := h' }.setSys t th .user)
  | cloneGet (t : ℕ) (th : Thread) (child : ℤ) (u : ℕ) (y : CloneId) (c : Thread)
      (h' : Handoff) (ht : s.tasks t = some th) (hsys : th.sys = .clone child (.found u))
      (hu : s.tasks u = some c) (hmm : c.mm ≠ th.mm)
      (hh : s.h.step (.cloneGet y c.mm th.mm c.pid c.comm) = some h') :
      s.Rule (.task t (.cloneGet y)) ({ s with h := h' }.setSys t th (.clone child (.got y)))
  | cloneSchedule (t : ℕ) (th : Thread) (child : ℤ) (y : CloneId) (addr : Option ℕ)
      (h' : Handoff) (ht : s.tasks t = some th) (hsys : th.sys = .clone child (.got y))
      (hh : s.h.step (.cloneSchedule y th.pid th.comm (acProtJitAllowedMm s.reg.prots th.mm)
        addr) = some h') :
      s.Rule (.task t (.cloneSchedule addr)) ({ s with h := h' }.setSys t th .user)
  | execMissed (t : ℕ) (th : Thread) (ht : s.tasks t = some th) (hsys : th.sys = .user) :
      s.Rule (.task t (.execEntry none)) (s.setSys t th (.exec none .inside))
  | execPin (t : ℕ) (th : Thread) (x : InstId) (h' : Handoff) (ht : s.tasks t = some th)
      (hsys : th.sys = .user) (hprot : s.protects th.mm = true)
      (hh : s.h.step (.entryPin x th.mm th.pid th.comm) = some h') :
      s.Rule (.task t (.execEntry (some x)))
        ({ s with h := h' }.setSys t th (.exec (some x) .inside))
  | execMiss (t : ℕ) (th : Thread) (x : InstId) (h' : Handoff) (ht : s.tasks t = some th)
      (hsys : th.sys = .user) (hprot : s.protects th.mm = false)
      (hh : s.h.step (.entryMiss x) = some h') :
      s.Rule (.task t (.execEntry (some x)))
        ({ s with h := h' }.setSys t th (.exec (some x) .entry))
  | execScan (t : ℕ) (th : Thread) (x : InstId) (h' : Handoff) (ht : s.tasks t = some th)
      (hsys : th.sys = .exec (some x) .entry)
      (hh : s.h.step (.entryScan x th.mm th.tgid) = some h') :
      s.Rule (.task t .execScan) ({ s with h := h' }.setSys t th (.exec (some x) .inside))
  | execMmap (t : ℕ) (th : Thread) (x : Option InstId) (comm : String)
      (ht : s.tasks t = some th) (hsys : th.sys = .exec x .inside)
      (halone : (s.setTask t none).anyTask (fun u => u.tgid == th.tgid) = false) :
      s.Rule (.task t (.execMmap comm)) (s.execMmap t th x comm)
  | execDone (t : ℕ) (th : Thread) (mapped : Bool) (rc : ℤ) (addr : Option ℕ)
      (ht : s.tasks t = some th)
      (hsys : th.sys = .exec none (if mapped then .mapped else .inside)) :
      s.Rule (.task t (.execRet rc addr)) (s.setSys t th (afterExec (mapped && rc != 0)))
  | execRet (t : ℕ) (th : Thread) (x : InstId) (mapped : Bool) (rc : ℤ) (addr : Option ℕ)
      (h' : Handoff) (ht : s.tasks t = some th)
      (hsys : th.sys = .exec (some x) (if mapped then .mapped else .inside))
      (hrc : mapped = false → rc ≠ 0)
      (hh : s.h.step (.execRet x rc (some th.mm) th.pid th.comm (s.oldJit x) addr) = some h')
      (hx : h'.execs x = none) :
      s.Rule (.task t (.execRet rc addr))
        ({ s with h := h' }.setSys t th (afterExec (mapped && rc != 0)))
  | execGone (t : ℕ) (th : Thread) (x : InstId) (mapped : Bool) (rc : ℤ) (addr : Option ℕ)
      (h' : Handoff) (ht : s.tasks t = some th)
      (hsys : th.sys = .exec (some x) (if mapped then .mapped else .inside))
      (hrc : mapped = false → rc ≠ 0)
      (hh : s.h.step (.execRet x rc (some th.mm) th.pid th.comm (s.oldJit x) addr) = some h')
      (hx : h'.execs x ≠ none) :
      s.Rule (.task t (.execRet rc addr))
        ({ s with h := h' }.setSys t th (.exec (some x) (.requeue mapped (mapped && rc != 0))))
  | execRequeue (t : ℕ) (th : Thread) (x : InstId) (mapped dying : Bool) (addr : Option ℕ)
      (h' : Handoff) (ht : s.tasks t = some th)
      (hsys : th.sys = .exec (some x) (.requeue mapped dying))
      (hh : s.h.step (.requeue x addr) = some h') :
      s.Rule (.task t (.execRequeue addr)) ({ s with h := h' }.setSys t th (afterExec dying))
  | exit (t : ℕ) (th : Thread) (ht : s.tasks t = some th)
      (hsys : th.sys = .user ∨ th.sys = .dying) : s.Rule (.task t .exit) (s.setTask t none)
  | pinForeign (t : ℕ) (th : Thread) (ht : s.tasks t = some th) :
      s.Rule (.task t .pinForeign)
        { s with foreign := Function.update s.foreign th.mm (s.foreign th.mm + 1) }
  | unpinForeign (m : ℕ) :
      s.Rule (.unpinForeign m)
        { s with foreign := Function.update s.foreign m (s.foreign m - 1) }
  | addProc (t : ℕ) (th : Thread) (jit : Bool) (reg' : Registry ℕ) (ht : s.tasks t = some th)
      (hreg : s.reg.step (.addEnter th.mm th.pid th.comm jit) = some reg') :
      s.Rule (.task t (.addProc jit)) { s with reg := reg' }
  | mmExit (m : ℕ) (reg' : Registry ℕ) (hm : m < s.nextMm) (husers : s.mmUsers m = 0)
      (hreg : s.reg.step (.exit m) = some reg') : s.Rule (.mmExit m) { s with reg := reg' }
  | delProc (m : ℕ) (reg' : Registry ℕ) (hm : m < s.nextMm)
      (hreg : s.reg.step (.delEnter m) = some reg') : s.Rule (.delProc m) { s with reg := reg' }
  | reg (a : RegAct ℕ) (reg' : Registry ℕ) (ha : a.isInternal = true)
      (hreg : s.reg.step a = some reg') : s.Rule (.reg a) { s with reg := reg' }
  | work (a : ℕ) (w : WorkAct) (r : AcProtAddReq) (h' : Handoff) (hr : s.h.reqs a = some r)
      (hreads : s.workReads a r w = true) (hh : s.h.step (.work a w) = some h') :
      s.Rule (.work a w) { s with h := h', call := Function.update s.call a none }
  | workCall (a : ℕ) (r : AcProtAddReq) (act : RegAct ℕ) (reg' : Registry ℕ)
      (hr : s.h.reqs a = some r) (hnone : s.call a = none) (hcall : r.call = some act)
      (hreg : s.reg.step act = some reg') :
      s.Rule (.workCall a)
        { s with
          reg := reg', call := Function.update s.call a (some s.reg.calls.length) }

variable {s s' : Inherit} {t : ℕ} {th : Thread}

/-! ### Inversion -/

lemma registry_eq_some {act : RegAct ℕ} :
    s.registry act = some s' ↔ ∃ reg', s.reg.step act = some reg' ∧ { s with reg := reg' } = s' :=
  Option.map_eq_some_iff

lemma map_handoff_eq_some {act : HandoffAct} {f : Inherit → Inherit} :
    (s.handoff act).map f = some s' ↔ ∃ h', s.h.step act = some h' ∧ f { s with h := h' } = s' := by
  unfold handoff
  rw [Option.map_map, Option.map_eq_some_iff]
  rfl

lemma rule_cloneGet {child : ℤ} {u : ℕ} {y : CloneId} (ht : s.tasks t = some th)
    (hsys : th.sys = .clone child (.found u)) (h : s.cloneGet t th child u y = some s') :
    s.Rule (.task t (.cloneGet y)) s' := by
  unfold cloneGet at h
  split at h
  · next hu =>
    cases h
    exact .cloneGone t th child u y ht hsys hu
  · next c hu =>
    obtain ⟨h', hh, rfl⟩ := map_handoff_eq_some.mp h
    split_ifs with hmm
    · exact .cloneSame t th child u y c h' ht hsys hu hmm hh
    · exact .cloneGet t th child u y c h' ht hsys hu hmm hh

lemma rule_execEntry {x : InstId} (ht : s.tasks t = some th) (hsys : th.sys = .user)
    (h : s.execEntry t th x = some s') : s.Rule (.task t (.execEntry (some x))) s' := by
  unfold execEntry at h
  split_ifs at h with hprot
  · obtain ⟨h', hh, rfl⟩ := map_handoff_eq_some.mp h
    exact .execPin t th x h' ht hsys hprot hh
  · obtain ⟨h', hh, rfl⟩ := map_handoff_eq_some.mp h
    exact .execMiss t th x h' ht hsys (Bool.eq_false_of_not_eq_true hprot) hh

lemma rule_execRet {x : Option InstId} {rc : ℤ} {addr : Option ℕ} (mapped : Bool)
    (ht : s.tasks t = some th) (hsys : th.sys = .exec x (if mapped then .mapped else .inside))
    (hrc : mapped = false → rc ≠ 0) (h : s.execRet t th x mapped rc addr = some s') :
    s.Rule (.task t (.execRet rc addr)) s' := by
  unfold execRet at h
  cases x with
  | none =>
    cases h
    exact .execDone t th mapped rc addr ht hsys
  | some x =>
    obtain ⟨h', hh, rfl⟩ := map_handoff_eq_some.mp h
    split_ifs with hx
    · exact .execRet t th x mapped rc addr h' ht hsys hrc hh (Option.isNone_iff_eq_none.mp hx)
    · exact .execGone t th x mapped rc addr h' ht hsys hrc hh
        fun hnone => hx (Option.isNone_iff_eq_none.mpr hnone)

lemma rule_work {a : ℕ} {r : AcProtAddReq} {w : WorkAct} (hr : s.h.reqs a = some r)
    (h : s.work a r w = some s') : s.Rule (.work a w) s' := by
  unfold work at h
  split_ifs at h with hreads
  obtain ⟨h', hh, rfl⟩ := map_handoff_eq_some.mp h
  exact .work a w r h' hr hreads hh

lemma rule_workCall {a : ℕ} {r : AcProtAddReq} (hr : s.h.reqs a = some r)
    (h : s.workCall a r = some s') : s.Rule (.workCall a) s' := by
  unfold workCall at h
  split at h
  · next act hnone hcall =>
    obtain ⟨s₁, hs₁, rfl⟩ := Option.map_eq_some_iff.mp h
    obtain ⟨reg', hreg, rfl⟩ := registry_eq_some.mp hs₁
    exact .workCall a r act reg' hr hnone hcall hreg
  · cases h

lemma rule_taskStep {act : TaskAct} (ht : s.tasks t = some th)
    (h : s.taskStep t th act = some s') : s.Rule (.task t act) s' := by
  cases act with
  | root =>
    simp only [taskStep] at h
    split_ifs at h with hprot
    cases h
    exact .root t th ht hprot
  | fork pid kind probed =>
    simp only [taskStep] at h
    split_ifs at h with hok
    cases h
    exact .fork t th pid kind probed ht hok.1 (by simpa using hok.2.2)
  | cloneCheck =>
    simp only [taskStep] at h
    split at h <;> cases h
    next child hsys =>
    split_ifs with hprot
    · exact .cloneCheck t th child ht hsys hprot
    · exact .cloneIgnore t th child ht hsys (Bool.eq_false_of_not_eq_true hprot)
  | cloneFind =>
    simp only [taskStep] at h
    split at h <;> cases h
    next child hsys =>
    cases hfind : s.findTask child with
    | none => exact .cloneLost t th child ht hsys hfind
    | some u => exact .cloneFind t th child u ht hsys hfind
  | cloneGet y =>
    simp only [taskStep] at h
    split at h
    · next child u hsys => exact rule_cloneGet ht hsys h
    · cases h
  | cloneSchedule addr =>
    simp only [taskStep] at h
    split at h
    · next child y hsys =>
      obtain ⟨h', hh, rfl⟩ := map_handoff_eq_some.mp h
      exact .cloneSchedule t th child y addr h' ht hsys hh
    · cases h
  | execEntry x =>
    simp only [taskStep] at h
    split at h
    · next hsys =>
      cases h
      exact .execMissed t th ht hsys
    · next x hsys => exact rule_execEntry ht hsys h
    · cases h
  | execScan =>
    simp only [taskStep] at h
    split at h
    · next x hsys =>
      obtain ⟨h', hh, rfl⟩ := map_handoff_eq_some.mp h
      exact .execScan t th x h' ht hsys hh
    · cases h
  | execMmap comm =>
    simp only [taskStep] at h
    split at h
    · next x hsys =>
      split_ifs at h with halone
      cases h
      exact .execMmap t th x comm ht hsys (Bool.eq_false_of_not_eq_true halone)
    · cases h
  | execRet rc addr =>
    simp only [taskStep] at h
    split at h
    · next x hsys =>
      split_ifs at h with hrc
      exact rule_execRet false ht hsys (fun _ => hrc) h
    · next x hsys => exact rule_execRet true ht hsys nofun h
    · cases h
  | execRequeue addr =>
    simp only [taskStep] at h
    split at h
    · next x mapped dying hsys =>
      obtain ⟨h', hh, rfl⟩ := map_handoff_eq_some.mp h
      exact .execRequeue t th x mapped dying addr h' ht hsys hh
    · cases h
  | exit =>
    simp only [taskStep] at h
    split_ifs at h with hsys
    cases h
    exact .exit t th ht hsys
  | pinForeign =>
    cases h
    exact .pinForeign t th ht
  | addProc jit =>
    obtain ⟨reg', hreg, rfl⟩ := registry_eq_some.mp h
    exact .addProc t th jit reg' ht hreg

/-- Every step is an instance of a rule. -/
theorem rule_of_step {a : InheritAct} (h : s.step a = some s') : s.Rule a s' := by
  cases a with
  | task t act =>
    obtain ⟨th, ht, h⟩ := Option.bind_eq_some_iff.mp h
    exact rule_taskStep ht h
  | mmExit m =>
    simp only [step] at h
    split_ifs at h with hok
    obtain ⟨reg', hreg, rfl⟩ := registry_eq_some.mp h
    exact .mmExit m reg' hok.1 hok.2 hreg
  | unpinForeign m =>
    simp only [step] at h
    split_ifs at h
    cases h
    exact .unpinForeign m
  | delProc m =>
    simp only [step] at h
    split_ifs at h with hm
    obtain ⟨reg', hreg, rfl⟩ := registry_eq_some.mp h
    exact .delProc m reg' hm hreg
  | reg a =>
    simp only [step] at h
    split_ifs at h with ha
    obtain ⟨reg', hreg, rfl⟩ := registry_eq_some.mp h
    exact .reg a reg' ha hreg
  | work a w =>
    obtain ⟨r, hr, h⟩ := Option.bind_eq_some_iff.mp h
    exact rule_work hr h
  | workCall a =>
    obtain ⟨r, hr, h⟩ := Option.bind_eq_some_iff.mp h
    exact rule_workCall hr h

end Inherit

end Anticheat
