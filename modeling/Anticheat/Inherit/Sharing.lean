import Anticheat.Inherit.Invariant

/-!
# Address spaces shared by several processes

An exec out of a protected address space queues a rekey whose worker drops the old entry only when
`mm_users` shows no user beside its own pin. The pins of other execs and workers can only make the
count larger, so as long as a task runs in the address space its entry stays.
-/

namespace Anticheat

open Transition

namespace Inherit

variable {s s' : Inherit} {a : InheritAct} {m : ℕ}

/-! ### What a step does to the registry -/

/-- The step `act` of the registry as part of the step `a`. An address space loses its protection
by a `DEL_PROC`, or when nothing uses it any more, or by a worker that has the only reference; it
is added by `ADD_PROC` of a task or by a worker. -/
structure RegPart (s s' : Inherit) (a : InheritAct) (act : RegAct ℕ) : Prop where
  step : s.reg.step act = some s'.reg
  unprotects : ∀ m, act.unprotects m = true →
    a = .delProc m ∨ (act = .exit m ∧ ¬ s.TaskIn m ∧ ¬ s.Holds m) ∨
      (act = .delEnter m ∧ ∃ b, s.OnlyAt m (.req b .oldMm))
  adds : ∀ m pid comm jit, act = .addEnter m pid comm jit →
    (∃ t th, a = .task t (.addProc jit) ∧ s.tasks t = some th ∧ th.mm = m) ∨
      ∃ b, s.call b = none ∧ s'.call b = some s.reg.calls.length
  registers : act.registers = false → a = .reg act

lemma Inv.reg_of_step (h : s.Inv) (hstep : s.step a = some s') :
    s'.reg = s.reg ∨ ∃ act, s.RegPart s' a act := by
  cases rule_of_step hstep with
  | addProc t th jit reg' ht hreg =>
    refine .inr ⟨_, hreg, by simp [RegAct.unprotects], fun m pid comm j hact => .inl ?_,
      by simp [RegAct.registers]⟩
    cases hact
    exact ⟨t, th, rfl, ht, rfl⟩
  | mmExit m' reg' hm husers hreg =>
    refine .inr ⟨_, hreg, fun m hm => .inr (.inl ?_), by simp, by simp [RegAct.registers]⟩
    obtain rfl : m' = m := by simpa [RegAct.unprotects] using hm
    have hnone : ¬ (s.TaskIn m' ∨ s.Holds m') := fun hin => (h.mmUsers_pos hin).ne' husers
    exact ⟨rfl, fun hin => hnone (.inl hin), fun hin => hnone (.inr hin)⟩
  | delProc m' reg' hm' hreg =>
    refine .inr ⟨_, hreg, fun m hm => .inl ?_, by simp, by simp [RegAct.registers]⟩
    rw [show m' = m by simpa [RegAct.unprotects] using hm]
  | reg act reg' ha hreg =>
    refine .inr ⟨_, hreg, fun m hm => ?_, fun m pid comm jit hact => ?_, fun _ => rfl⟩
    · cases act with
      | delEnter => cases ha
      | exit => cases ha
      | clearEnter => cases ha
      | _ => cases hm
    · subst hact
      cases ha
  | workCall b r act reg' hr hnone hcall hreg =>
    have hadds : ∃ b', s.call b' = none ∧
        Function.update s.call b (some s.reg.calls.length) b' = some s.reg.calls.length :=
      ⟨b, hnone, Function.update_self _ _ _⟩
    rcases AcProtAddReq.held_of_call hcall with ⟨f, u, pid, comm, jit, hf, rfl⟩ |
      ⟨old, hpc, hold, rfl⟩
    · exact .inr ⟨_, hreg, by simp [RegAct.unprotects], fun _ _ _ _ _ => .inr hadds,
        by simp [RegAct.registers]⟩
    · refine .inr ⟨_, hreg, fun m hm => .inr (.inr ?_), by simp, by simp [RegAct.registers]⟩
      obtain rfl : old.mm = m := by simpa [RegAct.unprotects] using hm
      exact ⟨rfl, b, h.dels b r old hr hpc hold⟩
  | _ => exact .inl rfl

/-- A step that is not a `DEL_PROC` of it leaves the entries of an mm in use alone. -/
lemma RegPart.unprotects_eq_false {act : RegAct ℕ} (hp : s.RegPart s' a act) (hin : s.TaskIn m)
    (ha : a ≠ .delProc m) : act.unprotects m = false := by
  by_contra hm
  rcases hp.unprotects m (Bool.eq_true_of_not_eq_false hm) with hdel | ⟨-, hnone, -⟩ |
    ⟨-, b, hnone, -⟩
  · exact ha hdel
  · exact hnone hin
  · exact hnone hin

/-- While a task runs in the mm or the module holds it, the mm does not exit. -/
lemma RegPart.ne_exit {act : RegAct ℕ} (hp : s.RegPart s' a act) (hm : s.TaskIn m ∨ s.Holds m)
    (ha : a ≠ .delProc m) : act ≠ .exit m := by
  rintro rfl
  rcases hp.unprotects m (by simp [RegAct.unprotects]) with hdel | ⟨-, htask, hholds⟩ | ⟨hact, -⟩
  · exact ha hdel
  · exact hm.elim htask hholds
  · cases hact

/-! ### Entries in use stay -/

/-- While a task runs in the mm nobody removes its entries. -/
def Guarded (s : Inherit) (m : ℕ) : Prop := s.TaskIn m → s.reg.Intact m

lemma Guarded.init : Inherit.init.Guarded m :=
  fun _ => (Registry.Within.init (P := fun _ => False)).intact id

lemma Guarded.step (hs : s.Guarded m) (h : s.Inv) (ha : a ≠ .delProc m)
    (hstep : s.step a = some s') : s'.Guarded m := by
  rintro ⟨u, uh, hu, rfl⟩
  rcases mm_of_step hstep u uh hu with hin | ⟨hnew, hreg⟩
  · obtain ⟨owner, howned⟩ := h.reg.owned
    rcases h.reg_of_step hstep with hreg | ⟨act, hpart⟩
    · rw [hreg]
      exact hs hin
    · exact (hs hin).step howned (hpart.unprotects_eq_false hin ha) hpart.step
  · rw [hreg]
    exact h.within.intact (not_lt.mpr hnew.ge)

/-- A protected mm in use is still protected after a step. -/
lemma Guarded.protects_step (hs : s.Guarded m) (h : s.Inv) (ha : a ≠ .delProc m)
    (hstep : s.step a = some s') (hin : s.TaskIn m) (hprot : s.protects m = true) :
    s'.protects m = true := by
  obtain ⟨owner, howned⟩ := h.reg.owned
  rcases h.reg_of_step hstep with hreg | ⟨act, hpart⟩
  · rw [protects, hreg]
    exact hprot
  · exact (hs hin).protected_step howned (hpart.unprotects_eq_false hin ha) hpart.step hprot

/-! ### The main result -/

/-- In every run the worker of an exec enters `ac_del_prot_mm` only while no task runs in the old
address space; and a protected address space stays protected as long as some task runs in it,
unless somebody calls `DEL_PROC` for it. -/
theorem shared_mm_protected {as : List InheritAct} {s : Inherit}
    (hrun : run step init as = some s) :
    (∀ a r old, s.h.reqs a = some r → r.call = some (.delEnter old) → s.inUse old = false) ∧
    ∀ m bs s', s.protects m = true → (∀ a ∈ as ++ bs, a ≠ .delProc m) →
      run (restrict (fun s _ => s.inUse m) step) s bs = some s' → s'.protects m = true := by
  have hinv := Inv.init.of_run hrun
  constructor
  · intro a r old hr hcall
    have hin : ¬ s.TaskIn old := by
      rcases AcProtAddReq.held_of_call hcall with ⟨f, u, pid, comm, jit, -, hact⟩ |
        ⟨old', hpc, hold, hact⟩
      · cases hact
      · cases hact
        exact (hinv.dels a r old' hr hpc hold).1
    rw [← hinv.inUse_iff] at hin
    exact Bool.eq_false_of_not_eq_true hin
  · intro m bs s' hprot hdel hrest
    have hguard : s.Guarded m := by
      refine (run_invariant_of_forall (P := fun t => t.Inv ∧ t.Guarded m)
        (fun t b t' hb ht hstep => ?_) (fun b hb => hdel b (List.mem_append_left _ hb))
        ⟨Inv.init, Guarded.init⟩ hrun).2
      exact ⟨ht.1.step hstep, ht.2.step ht.1 hb hstep⟩
    refine (run_invariant_of_forall (P := fun t => (t.Inv ∧ t.Guarded m) ∧ t.protects m = true)
      (fun t b t' hb ht hstep => ?_) (fun b hb => hdel b (List.mem_append_right _ hb))
      ⟨⟨hinv, hguard⟩, hprot⟩ hrest).2
    obtain ⟨⟨hinv, hguard⟩, hprot⟩ := ht
    obtain ⟨huse, hstep⟩ := restrict_eq_some.mp hstep
    have hin := hinv.inUse_iff.mp huse
    exact ⟨⟨hinv.step hstep, hguard.step hinv hb hstep⟩,
      hguard.protects_step hinv hb hstep hin hprot⟩

/-- `ADD_PROC` of the first process. -/
def addProcRun : List InheritAct :=
  [.task 0 (.addProc false), .reg (.register 0 0), .reg (.addSettle 0)]

/-- It creates a process in its own address space, which execs, and the rekey keeps the entry. -/
def vforkRun : List InheritAct :=
  [.task 0 (.fork 2 .share true), .task 0 .cloneCheck, .task 0 .cloneFind, .task 0 (.cloneGet 0),
    .task 1 (.execEntry (some (0, 0))), .task 1 (.execMmap "game"),
    .task 1 (.execRet 0 (some 0)), .work 0 .start, .workCall 0, .reg (.register 1 0),
    .reg (.addSettle 1), .work 0 (.added 0), .work 0 (.users true), .work 0 .putOld,
    .work 0 .finish]

lemma addProcRun_runs : (run step init addProcRun).isSome = true := by
  decide +kernel

lemma vforkRun_runs : (run (restrict (fun s _ => s.inUse 0) step)
    ((run step init addProcRun).get addProcRun_runs) vforkRun).isSome = true := by
  decide +kernel

theorem shared_mm_protected_vforkRun :
    ∃ s s', run step init addProcRun = some s ∧
      run (restrict (fun s _ => s.inUse 0) step) s vforkRun = some s' ∧
      s'.protects 0 = true := by
  have hstart := (Option.some_get addProcRun_runs).symm
  have hend := (Option.some_get vforkRun_runs).symm
  refine ⟨_, _, hstart, hend, (shared_mm_protected hstart).2 0 vforkRun _ ?_ ?_ hend⟩
  · decide +kernel
  · decide

end Inherit

end Anticheat
