import Anticheat.Inherit.Leaving
import Anticheat.Inherit.Sharing

/-!
# When an exit is reported

`AC_EV_EXIT` is emitted for an address space that goes away while its entry is published. Processes
that leave a protected address space by an exec must not be reported as exited: the worker of such
an exec removes the entry, unless `mm_users` shows another user. The count does not tell who the
other user is. An entry that is kept on account of a pin is not removed by anybody.
-/

namespace Anticheat

open Transition

/-! ### The callback of an exiting address space -/

namespace Registry

variable {M : Type} [DecidableEq M] {s s' : Registry M} {a : RegAct M} {m : M} {i : Slot} {pid : ℤ}
variable {comm : String}

/-- An entry that is not on its way out is not reported. -/
lemma NotExiting.cleared_of_step (hs : s.NotExiting m) (hstep : s.step a = some s')
    (hc : s'.notifier i = .cleared m pid comm) : s.notifier i = .cleared m pid comm := by
  rcases Registry.cleared_of_step hstep hc with hc | ⟨hn, hmm, hrem⟩
  · exact hc
  · exact absurd ((hs i hmm hrem).notifier.symm.trans hn) nofun

omit [DecidableEq M] in
lemma Doomed.notExiting {n : ℕ} (hd : s.Doomed m n) : s.NotExiting m :=
  fun i hmm hrem => absurd (.inl ⟨hmm, hrem⟩) (hd i (.inl hmm)).1

end Registry

/-! ### Exits and their report -/

namespace Inherit

/-- The process of the task runs in the mm, and the task is the last one of it. -/
def EndsIn (s : Inherit) (t m : ℕ) : Prop :=
  ∃ th, s.tasks t = some th ∧ th.mm = m ∧
    ∀ u uh, u ≠ t → s.tasks u = some uh → uh.tgid ≠ th.tgid

/-- The step emits `AC_EV_EXIT` for the mm. -/
def reportsExit (s : Inherit) (m : ℕ) : InheritAct → Bool
  | .reg (.queueRelease i) =>
    match s.reg.notifier i with
    | .cleared m' _ _ => m' == m
    | _ => false
  | _ => false

variable {s s' : Inherit} {a : InheritAct} {m b : ℕ}

lemma reportsExit_iff : s.reportsExit m a = true ↔
    ∃ i pid comm, a = .reg (.queueRelease i) ∧ s.reg.notifier i = .cleared m pid comm := by
  constructor
  · intro h
    unfold reportsExit at h
    split at h
    · next i =>
      split at h
      · next m' pid comm hn =>
        obtain rfl : m' = m := by simpa using h
        exact ⟨i, pid, comm, rfl, hn⟩
      · cases h
    · cases h
  · rintro ⟨i, pid, comm, rfl, hn⟩
    simp [reportsExit, hn]

/-! ### From the last exec to the removal -/

/-- How the life of a protected mm goes on as long as its processes leave it by execs. -/
inductive Stage (s : Inherit) (m : ℕ) : Prop where
  /-- tasks run in it, and every exec out of it holds it -/
  | running (hin : s.TaskIn m) (hintact : s.reg.Intact m) (hprot : s.protects m = true)
      (hpin : s.Pinned m)
  /-- all have left, and a worker has yet to find out -/
  | leaving (hlt : m < s.nextMm) (hin : ¬ s.TaskIn m) (hlive : s.reg.NotExiting m)
      (hleft : (∃ k, s.YetToRead m k) ∨ ∃ b, s.Deletes m b)
  /-- the entry is being removed, and nobody is going to register the mm again -/
  | removed (n : ℕ) (hlt : m < s.nextMm) (hin : ¬ s.TaskIn m) (hdoomed : s.reg.Doomed m n)
      (hold : ∀ p u, s.h.held p = some u → u.mm = m → ∃ b, p = .req b .oldMm)

lemma Stage.notExiting (hs : s.Stage m) : s.reg.NotExiting m := by
  cases hs with
  | running hin hintact hprot hpin => exact hintact.notExiting
  | leaving hlt hin hlive hleft => exact hlive
  | removed n hlt hin hdoomed hold => exact hdoomed.notExiting

lemma ne_delProc_of_carriesOver (hcarry : s.carriesOver m a = true) : a ≠ .delProc m := by
  rintro rfl
  simp [carriesOver] at hcarry

/-- Nobody comes into an address space that all have left. -/
lemma not_taskIn_step (hstep : s.step a = some s') (hlt : m < s.nextMm) (hin : ¬ s.TaskIn m) :
    ¬ s'.TaskIn m := by
  rintro ⟨u, uh, hu, rfl⟩
  rcases mm_of_step hstep u uh hu with hin' | ⟨hnew, -⟩
  · exact hin hin'
  · exact absurd hlt (hnew ▸ lt_irrefl _)

/-- The last task leaves an address space by an exec or by an exit. -/
lemma Regular.left_of_step (h : s.Regular) (hstep : s.step a = some s') (hin : s.TaskIn m)
    (hin' : ¬ s'.TaskIn m) :
    ∃ t th, s.tasks t = some th ∧ th.mm = m ∧ ((a = .task t .exit ∧ s' = s.setTask t none) ∨
      ∃ x comm, th.sys = .exec x .inside ∧ s' = s.execMmap t th x comm) := by
  obtain ⟨t, th, ht, hm⟩ := hin
  have hleft : ∀ th', s'.tasks t = some th' → th'.mm = th.mm → False :=
    fun th' ht' heq => hin' ⟨t, th', ht', heq.trans hm⟩
  by_cases ha : ∃ act, a = .task t act
  · obtain ⟨act, rfl⟩ := ha
    refine ⟨t, th, ht, hm, ?_⟩
    cases taskEffect_of_step hstep with
    | quiet htasks hnext hmm hexecs hclones => exact (hleft th (htasks ▸ ht) rfl).elim
    | acts _ th₁ sys h' hacts heq =>
      cases ht.symm.trans hacts.task
      subst heq
      exact (hleft { th with sys := sys } (Function.update_self _ _ _) rfl).elim
    | fork _ th₁ pid kind probed ht₁ hsys hpid heq =>
      cases ht.symm.trans ht₁
      subst heq
      have hne := (h.inv.tasks t th ht).1.ne
      exact (hleft { th with sys := if probed then .clone pid .body else .user }
        ((Function.update_of_ne hne _ _).trans (Function.update_self _ _ _)) rfl).elim
    | execMmap _ th₁ x comm ht₁ hsys halone heq =>
      cases ht.symm.trans ht₁
      exact .inr ⟨x, comm, hsys, heq⟩
    | exit _ th₁ ht₁ hsys heq => exact .inl ⟨rfl, heq⟩
    | root _ th₁ ht₁ hprot heq =>
      subst heq
      exact (hleft _ (Option.map_eq_some_iff.mpr ⟨th, ht, rfl⟩) rfl).elim
  · obtain ⟨⟨tree, ht', -⟩, -⟩ :=
      others_of_step h.inv h.insts hstep ht fun act heq => ha ⟨act, heq⟩
    exact (hleft _ ht' rfl).elim

/-- A task that leaves nobody behind in its mm is the last one of its process. -/
lemma TasksOk.endsIn (h : s.TasksOk) {t : ℕ} {th : Thread} (ht : s.tasks t = some th)
    (hlast : ¬ (s.setTask t none).TaskIn th.mm) : s.EndsIn t th.mm := by
  refine ⟨th, ht, rfl, fun u uh hne hu htgid => hlast ?_⟩
  exact ⟨u, uh, (Function.update_of_ne hne _ _).trans hu, h.mm u t uh th hu ht htgid⟩

lemma Stage.running_step (h : s.Regular) (hin : s.TaskIn m) (hintact : s.reg.Intact m)
    (hprot : s.protects m = true) (hpin : s.Pinned m) (hcarry : s.carriesOver m a = true)
    (hend : ∀ t, a = .task t .exit → ¬ s.EndsIn t m) (hstep : s.step a = some s') :
    s'.Stage m := by
  have hdel := ne_delProc_of_carriesOver hcarry
  have hguard : s.Guarded m := fun _ => hintact
  by_cases hin' : s'.TaskIn m
  · exact .running hin' (hguard.step h.inv hdel hstep hin')
      (hguard.protects_step h.inv hdel hstep hin hprot) (hpin.step h hprot hcarry hstep)
  · obtain ⟨t, th, ht, rfl, ⟨rfl, rfl⟩ | ⟨x, comm, hsys, rfl⟩⟩ := h.left_of_step hstep hin hin'
    · exact absurd (h.tasks.endsIn ht hin') (hend t rfl)
    · obtain ⟨y, rfl, hpins⟩ := hpin t th x .inside ht rfl hsys (.inr rfl)
      have hlt := (h.inv.tasks t th ht).2
      refine .leaving (hlt.trans (Nat.lt_succ_self _)) hin' hintact.notExiting (.inl ⟨.exec y, ?_⟩)
      exact ⟨⟨t, _, Function.update_self _ _ _, rfl⟩, hpins⟩

lemma Stage.leaving_step (h : s.Regular) (hlt : m < s.nextMm) (hin : ¬ s.TaskIn m)
    (hlive : s.reg.NotExiting m) (hleft : (∃ k, s.YetToRead m k) ∨ ∃ b, s.Deletes m b)
    (hcarry : s.carriesOver m a = true) (hsees : s.SeesOthers m a)
    (hstep : s.step a = some s') : s'.Stage m := by
  have hlt' := hlt.trans_le (h.inv.tasks_step hstep).1
  have hin' := not_taskIn_step hstep hlt hin
  have hholds : s.Holds m := by
    rcases hleft with ⟨k, hk⟩ | ⟨b, r, hr, hleaves, hpc, -⟩
    · exact hk.holds h.inv h.registered
    · exact holds_of_leaves hr hleaves (by rw [hpc]; nofun)
  have hlive' : s'.reg.NotExiting m := by
    obtain ⟨owner, howned⟩ := h.inv.reg.owned
    rcases h.inv.reg_of_step hstep with hreg | ⟨act, hpart⟩
    · rwa [hreg]
    · have hdel := ne_delProc_of_carriesOver hcarry
      exact hlive.step howned (hpart.ne_exit (.inr hholds) hdel) hpart.step
  rcases hleft with ⟨k, hk⟩ | ⟨b, hdel⟩
  · exact .leaving hlt' hin' hlive' (h.inv.yetToRead_step h.insts hstep hcarry hsees hin hk)
  · rcases hdel.step h.inv hstep with hdel | hreg
    · exact .leaving hlt' hin' hlive' (.inr ⟨b, hdel⟩)
    · obtain ⟨hdoom, hh⟩ := hreg
      obtain ⟨r, hr, hleaves, hpc, -⟩ := hdel
      obtain ⟨old, hold, rfl⟩ := AcProtAddReq.leaves_iff.mp hleaves
      have honly := (h.inv.dels b r old hr hpc hold).2
      exact .removed _ hlt' hin' (h.inv.reg.doomed_delEnter hdoom)
        (hh ▸ fun p u hp hm => ⟨b, honly p u hp hm⟩)

/-- Who registers an mm runs in it or holds it, and not as an old one. -/
lemma adds_of_step (hstep : s.step a = some s') :
    s'.reg = s.reg ∨ ∃ act, s.reg.step act = some s'.reg ∧ ∀ m, act.adds m = true →
      s.TaskIn m ∨ ∃ b f u, f ≠ .oldMm ∧ s.h.held (.req b f) = some u ∧ u.mm = m := by
  cases rule_of_step hstep with
  | addProc t th jit reg' ht hreg =>
    refine .inr ⟨_, hreg, fun m hm => .inl ⟨t, th, ht, ?_⟩⟩
    simpa [RegAct.adds] using hm
  | mmExit m' reg' hm husers hreg => exact .inr ⟨_, hreg, by simp [RegAct.adds]⟩
  | delProc m' reg' hm hreg => exact .inr ⟨_, hreg, by simp [RegAct.adds]⟩
  | reg act reg' hact hreg =>
    refine .inr ⟨_, hreg, fun m hm => ?_⟩
    cases act with
    | addEnter => cases hact
    | _ => cases hm
  | workCall b r act reg' hr hnone hcall hreg =>
    refine .inr ⟨_, hreg, fun m hm => .inr ?_⟩
    cases act with
    | addEnter m' pid comm jit =>
      obtain ⟨f, u, hf, hu, hmm⟩ := AcProtAddReq.held_of_addEnter hcall
      refine ⟨b, f, u, hf, (Handoff.RefsOk.held_of_reqs hr f).trans hu, hmm.trans ?_⟩
      simpa [RegAct.adds] using hm
    | _ => cases hm
  | _ => exact .inl rfl

/-- References on an mm that all have left stay where they are until they are dropped. -/
lemma Inv.oldMm_of_step (h : s.Inv) (hstep : s.step a = some s') (hin : ¬ s.TaskIn m)
    (hold : ∀ p u, s.h.held p = some u → u.mm = m → ∃ b, p = .req b .oldMm) :
    ∀ p u, s'.h.held p = some u → u.mm = m → ∃ b, p = .req b .oldMm := by
  have hmove : ∀ act, s.h.step act = some s'.h → s.Current a act →
      (act.isHandler = true ∨ ∃ b w, act = .work b w) →
      ∀ p u, s'.h.held p = some u → u.mm = m → ∃ b, p = .req b .oldMm := by
    rintro act hh hcur hact p u hp rfl
    rcases h.h.held_of_step hh hp with ⟨q, v, hq, hid, hmm⟩ | hnew
    · obtain ⟨b, rfl⟩ := hold q v hq hmm
      have hrefs := (h.h.step hh).refs
      rcases h.h.held_oldMm_of_step hh hact hq with hq' | hdropped
      · exact ⟨b, hrefs.inj p _ u v hp hq' hid.symm⟩
      · exact absurd (hid ▸ hdropped) (hrefs.not_dropped p u hp)
    · exact absurd (hcur.taskIn hnew) hin
  cases workEffect_of_step hstep with
  | quiet hh hcall => exact hh ▸ hold
  | handler act hh hact hcur hreg hcall => exact hmove act hh hcur (.inl hact)
  | work b w r hr hreads hw hh hreg hcall =>
    refine hmove _ hh ⟨rfl, fun q hq => ?_⟩ (.inr ⟨b, w, rfl⟩)
    cases hr.symm.trans hq
    exact hreads
  | call b r act hr hnone hact hreg hh hcall => exact hh ▸ hold

lemma Stage.removed_step {n : ℕ} (h : s.Regular) (hlt : m < s.nextMm) (hin : ¬ s.TaskIn m)
    (hdoomed : s.reg.Doomed m n)
    (hold : ∀ p u, s.h.held p = some u → u.mm = m → ∃ b, p = .req b .oldMm)
    (hstep : s.step a = some s') : s'.Stage m := by
  refine .removed n (hlt.trans_le (h.inv.tasks_step hstep).1) (not_taskIn_step hstep hlt hin) ?_
    (h.inv.oldMm_of_step hstep hin hold)
  obtain ⟨owner, howned⟩ := h.inv.reg.owned
  rcases adds_of_step hstep with hreg | ⟨act, hreg, hadds⟩
  · rwa [hreg]
  · refine hdoomed.step howned (Bool.eq_false_of_not_eq_true fun hadd => ?_) hreg
    rcases hadds m hadd with hin' | ⟨b, f, u, hf, hu, hmm⟩
    · exact hin hin'
    · obtain ⟨c, hc⟩ := hold _ u hu hmm
      cases hc
      exact hf rfl

theorem Stage.step (hs : s.Stage m) (h : s.Regular) (hcarry : s.carriesOver m a = true)
    (hsees : s.SeesOthers m a) (hend : ∀ t, a = .task t .exit → ¬ s.EndsIn t m)
    (hstep : s.step a = some s') : s'.Stage m := by
  cases hs with
  | running hin hintact hprot hpin =>
    exact running_step h hin hintact hprot hpin hcarry hend hstep
  | leaving hlt hin hlive hleft => exact leaving_step h hlt hin hlive hleft hcarry hsees hstep
  | removed n hlt hin hdoomed hold => exact removed_step h hlt hin hdoomed hold hstep

/-! ### Address spaces in use -/

/-- The exit of an mm is not under way while a task runs in it. -/
structure Attended (s : Inherit) (m : ℕ) : Prop where
  guarded : s.Guarded m
  cleared : ∀ i pid comm, s.reg.notifier i = .cleared m pid comm → m < s.nextMm ∧ ¬ s.TaskIn m

lemma Attended.init : Inherit.init.Attended m := ⟨.init, nofun⟩

lemma Attended.step (hs : s.Attended m) (h : s.Inv) (ha : a ≠ .delProc m)
    (hstep : s.step a = some s') : s'.Attended m := by
  refine ⟨hs.guarded.step h ha hstep, fun i pid comm hc => ?_⟩
  have hbefore : m < s.nextMm ∧ ¬ s.TaskIn m := by
    rcases h.reg_of_step hstep with hreg | ⟨act, hpart⟩
    · exact hs.cleared i pid comm (hreg ▸ hc)
    · rcases Registry.cleared_of_step hpart.step hc with hc | ⟨hn, hmm, hrem⟩
      · exact hs.cleared i pid comm hc
      · refine ⟨h.within.slot i m hmm, fun hin => ?_⟩
        exact absurd ((hs.guarded hin i hmm).notifier.symm.trans hn) nofun
  exact ⟨hbefore.1.trans_le (h.tasks_step hstep).1, not_taskIn_step hstep hbefore.1 hbefore.2⟩

/-- In a run without a `DEL_PROC` for it, a protected mm in use starts in the first stage. -/
lemma stage_of_run {as : List InheritAct} (hrun : run step init as = some s)
    (hdel : ∀ a ∈ as, a ≠ .delProc m) (huse : s.inUse m = true) (hprot : s.protects m = true)
    (hpin : s.Pinned m) :
    s.Regular ∧ s.Stage m ∧ ∀ i pid comm, s.reg.notifier i ≠ .cleared m pid comm := by
  obtain ⟨hreg, hatt⟩ := run_invariant_of_forall (P := fun t => t.Regular ∧ t.Attended m)
    (fun t b t' hb ht hstep => ⟨ht.1.step hstep, ht.2.step ht.1.inv hb hstep⟩) hdel
    ⟨Regular.init, Attended.init⟩ hrun
  have hin := hreg.inv.inUse_iff.mp huse
  refine ⟨hreg, .running hin (hatt.guarded hin) hprot hpin, fun i pid comm hc => ?_⟩
  exact (hatt.cleared i pid comm hc).2 hin

/-! ### The main result -/

/-- Take a protected mm in use, every exec out of which carries the protection over. If a worker
keeps its entry only while a task still runs in it or another worker is still to look, then an
`AC_EV_EXIT` for the mm is emitted only if some process that ran in it has exited. -/
theorem exit_event_of_exit {as bs : List InheritAct} {s₀ s : Inherit} {a : InheritAct}
    (hrun₀ : run step init as = some s₀) (hdel : ∀ a ∈ as, a ≠ .delProc m)
    (huse : s₀.inUse m = true) (hprot : s₀.protects m = true) (hpin : s₀.Pinned m)
    (hrun : run step s₀ bs = some s)
    (hcarry : Along step (fun s a => s.carriesOver m a = true) s₀ bs)
    (hsees : Along step (fun s a => s.SeesOthers m a) s₀ bs)
    (hexit : s.reportsExit m a = true) :
    ∃ bs₁ t bs₂ s₁, bs = bs₁ ++ .task t .exit :: bs₂ ∧ run step s₀ bs₁ = some s₁ ∧
      s₁.EndsIn t m := by
  by_contra hnone
  have hend : Along step (fun s a => ∀ t, a = .task t .exit → ¬ s.EndsIn t m) s₀ bs := by
    rw [along_iff]
    rintro bs₁ a bs₂ s₁ rfl hrun₁ t rfl hends
    exact hnone ⟨bs₁, t, bs₂, s₁, rfl, hrun₁, hends⟩
  have hlast := run_invariant_of_along
    (P := fun s => s.Regular ∧ s.Stage m ∧ ∀ i pid comm, s.reg.notifier i ≠ .cleared m pid comm)
    (fun s a s' hok hs hstep => ?_) (hcarry.and (hsees.and hend))
    (stage_of_run hrun₀ hdel huse hprot hpin) hrun
  · obtain ⟨i, pid, comm, -, hc⟩ := reportsExit_iff.mp hexit
    exact hlast.2.2 i pid comm hc
  · obtain ⟨hcarry, hsees, hend⟩ := hok
    obtain ⟨hreg, hstage, hnot⟩ := hs
    refine ⟨hreg.step hstep, hstage.step hreg hcarry hsees hend hstep, fun i pid comm hc => ?_⟩
    rcases hreg.inv.reg_of_step hstep with heq | ⟨act, hpart⟩
    · exact hnot i pid comm (heq ▸ hc)
    · exact hnot i pid comm (hstage.notExiting.cleared_of_step hpart.step hc)

/-- The stronger condition that a task still runs in the mm. -/
def keepsInUse (m : ℕ) (s : Inherit) : InheritAct → Bool
  | .work _ (.users true) => s.inUse m
  | _ => true

lemma seesOthers_of_keepsInUse (hk : s.keepsInUse m a = true) : s.SeesOthers m a := by
  unfold SeesOthers
  split
  · exact fun r _ _ _ => .inl hk
  · trivial

lemma Inv.pinned_of_user (h : s.Inv) (huser : s.anyTask (fun th => th.sys != .user) = false) :
    s.Pinned m := by
  intro t th x pc ht _ hsys _
  have hnot := of_anyTask_false huser ht (h.tasks t th ht).1
  simp [hsys] at hnot

/-- After the exec of the process it created, the first process exits. -/
def vforkExitRun : List InheritAct :=
  vforkRun ++ [.task 0 .exit, .mmExit 0, .reg (.release 0)]

lemma vforkExitRun_runs : (run (restrict (fun s a => s.carriesOver 0 a && s.keepsInUse 0 a) step)
    ((run step init addProcRun).get addProcRun_runs) vforkExitRun).isSome = true := by
  decide +kernel

theorem exit_event_of_exit_vforkExitRun :
    ∃ s₀ s, run step init addProcRun = some s₀ ∧ run step s₀ vforkExitRun = some s ∧
      s.reportsExit 0 (.reg (.queueRelease 0)) = true ∧
      ∃ bs₁ t bs₂ s₁, vforkExitRun = bs₁ ++ .task t .exit :: bs₂ ∧ run step s₀ bs₁ = some s₁ ∧
        s₁.EndsIn t 0 := by
  have hstart := (Option.some_get addProcRun_runs).symm
  have hend := (Option.some_get vforkExitRun_runs).symm
  have hcond : ∀ (s : Inherit) a, (s.carriesOver 0 a && s.keepsInUse 0 a) = true →
      s.carriesOver 0 a = true ∧ s.SeesOthers 0 a := fun s a hok =>
    ⟨(Bool.and_eq_true_iff.mp hok).1, seesOthers_of_keepsInUse (Bool.and_eq_true_iff.mp hok).2⟩
  have hexit : ((run (restrict (fun s a => s.carriesOver 0 a && s.keepsInUse 0 a) step)
      ((run step init addProcRun).get addProcRun_runs) vforkExitRun).get
      vforkExitRun_runs).reportsExit 0 (.reg (.queueRelease 0)) = true := by
    decide +kernel
  refine ⟨_, _, hstart, run_of_run_restrict hend, hexit, exit_event_of_exit hstart ?_ ?_ ?_ ?_
    (run_of_run_restrict hend) ?_ ?_ hexit⟩
  · decide
  · decide +kernel
  · decide +kernel
  · exact (Inv.init.of_run hstart).pinned_of_user (by decide +kernel)
  · exact along_of_run_restrict (fun s a hok => (hcond s a hok).1) hend
  · exact along_of_run_restrict (fun s a hok => (hcond s a hok).2) hend

/-! ### Pins that keep an entry -/

/-- The first process execs while another part of the kernel holds its mm. -/
def pinnedExecRun : List InheritAct :=
  [.task 0 .pinForeign, .task 0 (.execEntry (some (0, 0))), .task 0 (.execMmap "game"),
    .task 0 (.execRet 0 (some 0)), .work 0 .start, .workCall 0, .reg (.register 1 0),
    .reg (.addSettle 1), .work 0 (.added 0), .work 0 (.users true), .work 0 .putOld,
    .work 0 .finish, .unpinForeign 0, .mmExit 0, .reg (.release 0)]

/-- Two processes exec out of one mm, and each worker takes the pin of the other for a user. -/
def twoExecsRun : List InheritAct :=
  [.task 0 (.fork 2 .share false), .task 0 (.execEntry (some (0, 0))),
    .task 1 (.execEntry (some (0, 1))), .task 0 (.execMmap "game"), .task 1 (.execMmap "game"),
    .task 0 (.execRet 0 (some 0)), .task 1 (.execRet 0 (some 1)), .work 0 .start, .workCall 0,
    .reg (.register 1 0), .reg (.addSettle 1), .work 0 (.added 0), .work 1 .start, .workCall 1,
    .reg (.register 2 0), .reg (.addSettle 2), .work 1 (.added 0), .work 0 (.users true),
    .work 1 (.users true), .work 0 .putOld, .work 1 .putOld, .mmExit 0, .reg (.release 0)]

lemma pinnedExecRun_reports : ((run (restrict (carriesOver 0) step)
    ((run step init addProcRun).get addProcRun_runs) pinnedExecRun).any
      fun s => s.reportsExit 0 (.reg (.queueRelease 0))) = true := by
  decide +kernel

lemma twoExecsRun_reports : ((run (restrict (carriesOver 0) step)
    ((run step init addProcRun).get addProcRun_runs) twoExecsRun).any
      fun s => s.reportsExit 0 (.reg (.queueRelease 0))) = true := by
  decide +kernel

/-- In both runs every new image is registered and no process exits, and yet the exit of the first
process is reported. -/
theorem exit_event_without_exit :
    ∃ s₀ s₁ s₂, run step init addProcRun = some s₀ ∧ s₀.inUse 0 = true ∧ s₀.protects 0 = true ∧
      s₀.Pinned 0 ∧ run (restrict (carriesOver 0) step) s₀ pinnedExecRun = some s₁ ∧
      s₁.reportsExit 0 (.reg (.queueRelease 0)) = true ∧ (∀ t, .task t .exit ∉ pinnedExecRun) ∧
      run (restrict (carriesOver 0) step) s₀ twoExecsRun = some s₂ ∧
      s₂.reportsExit 0 (.reg (.queueRelease 0)) = true ∧ ∀ t, .task t .exit ∉ twoExecsRun := by
  have hstart := (Option.some_get addProcRun_runs).symm
  obtain ⟨s₁, hrun₁, hexit₁⟩ := (Option.any_eq_true _ _).mp pinnedExecRun_reports
  obtain ⟨s₂, hrun₂, hexit₂⟩ := (Option.any_eq_true _ _).mp twoExecsRun_reports
  refine ⟨_, s₁, s₂, hstart, by decide +kernel, by decide +kernel, ?_, hrun₁, hexit₁, ?_, hrun₂,
    hexit₂, ?_⟩
  · exact (Inv.init.of_run hstart).pinned_of_user (by decide +kernel)
  · simp [pinnedExecRun]
  · simp [twoExecsRun]

end Inherit

end Anticheat
