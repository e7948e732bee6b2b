import Anticheat.Inherit.Invariant

/-!
# Processes and their threads

What the kernel keeps of the task table: a pid is not at the same time that of a thread elsewhere,
the threads of a process share its address space, and a task past `exec_mmap` is alone in its
process. No two tasks use one kretprobe instance.
-/

namespace Anticheat

open Transition

namespace Inherit

variable {s s' : Inherit} {a : InheritAct} {t u : ℕ} {th uh : Thread}

lemma of_anyTask_false {p : Thread → Bool} (hany : s.anyTask p = false) (ht : s.tasks t = some th)
    (hlt : t < s.nextTask) : p th = false := by
  by_contra hp
  have htrue : s.anyTask p = true := by
    simp only [anyTask, List.any_eq_true, List.mem_range, Option.any_eq_true]
    exact ⟨t, hlt, th, ht, Bool.eq_true_of_not_eq_false hp⟩
  exact Bool.false_ne_true (hany.symm.trans htrue)

/-- No other task of the process is left when `exec_mmap` runs. -/
lemma Inv.alone (h : s.Inv)
    (halone : (s.setTask t none).anyTask (fun u => u.tgid == th.tgid) = false) (hne : u ≠ t)
    (hu : s.tasks u = some uh) : uh.tgid ≠ th.tgid := by
  have hu' : (s.setTask t none).tasks u = some uh := (Function.update_of_ne hne _ _).trans hu
  simpa using of_anyTask_false halone hu' (h.tasks u uh hu).1

/-- A pid that is given out belongs to no task. -/
lemma Inv.fresh (h : s.Inv) {pid : ℤ}
    (hpid : s.anyTask (fun u => u.pid == pid || u.tgid == pid) = false)
    (hu : s.tasks u = some uh) : uh.pid ≠ pid ∧ uh.tgid ≠ pid := by
  simpa using of_anyTask_false hpid hu (h.tasks u uh hu).1

/-! ### Threads and processes -/

structure TasksOk (s : Inherit) : Prop where
  pid : ∀ t u th uh, s.tasks t = some th → s.tasks u = some uh → th.pid = uh.tgid →
    th.tgid = uh.tgid
  mm : ∀ t u th uh, s.tasks t = some th → s.tasks u = some uh → th.tgid = uh.tgid → th.mm = uh.mm
  alone : ∀ t u th uh, s.tasks t = some th → s.tasks u = some uh → th.sys.isMapped = true →
    uh.tgid = th.tgid → u = t

namespace TasksOk

lemma init : Inherit.init.TasksOk := by
  have hone : ∀ t th, Inherit.init.tasks t = some th →
      t = 0 ∧ th = ⟨1, 1, 0, "init", .user, false⟩ := by
    intro t th ht
    simp only [Inherit.init] at ht
    split_ifs at ht with h0
    exact ⟨h0, (Option.some.inj ht).symm⟩
  constructor
  · intro t u th uh ht hu _
    rw [(hone t th ht).2, (hone u uh hu).2]
  · intro t u th uh ht hu _
    rw [(hone t th ht).2, (hone u uh hu).2]
  · intro t u th uh ht hu _ _
    rw [(hone t th ht).1, (hone u uh hu).1]

/-- Tasks that stay in their process and address space. -/
lemma of_keeps (hs : s.TasksOk)
    (hkeep : ∀ u uh', s'.tasks u = some uh' → ∃ uh, s.tasks u = some uh ∧ uh'.pid = uh.pid ∧
      uh'.tgid = uh.tgid ∧ uh'.mm = uh.mm ∧
      (uh'.sys.isMapped = true → uh.sys.isMapped = true)) : s'.TasksOk := by
  constructor
  · intro t u th' uh' ht' hu' heq
    obtain ⟨th, ht, hpid, htgid, -⟩ := hkeep t th' ht'
    obtain ⟨uh, hu, -, hutgid, -⟩ := hkeep u uh' hu'
    rw [htgid, hutgid]
    exact hs.pid t u th uh ht hu (by rw [← hpid, ← hutgid, heq])
  · intro t u th' uh' ht' hu' heq
    obtain ⟨th, ht, -, htgid, hmm, -⟩ := hkeep t th' ht'
    obtain ⟨uh, hu, -, hutgid, hummm, -⟩ := hkeep u uh' hu'
    rw [hmm, hummm]
    exact hs.mm t u th uh ht hu (by rw [← htgid, ← hutgid, heq])
  · intro t u th' uh' ht' hu' hm heq
    obtain ⟨th, ht, -, htgid, -, hmap⟩ := hkeep t th' ht'
    obtain ⟨uh, hu, -, hutgid, -⟩ := hkeep u uh' hu'
    exact hs.alone t u th uh ht hu (hmap hm) (by rw [← htgid, ← hutgid, heq])

lemma fork (hs : s.TasksOk) (h : s.Inv) (ht : s.tasks t = some th) (hsys : th.sys = .user)
    {pid : ℤ} (kind : ForkKind) (probed : Bool)
    (hpid : s.anyTask (fun u => u.pid == pid || u.tgid == pid) = false) :
    (s.fork t th pid kind probed).TasksOk := by
  -- every task is the child or was there before
  have hold : ∀ u uh', (s.fork t th pid kind probed).tasks u = some uh' →
      (u = s.nextTask ∧ uh' = s.child th pid kind) ∨ ∃ uh, s.tasks u = some uh ∧
        uh'.pid = uh.pid ∧ uh'.tgid = uh.tgid ∧ uh'.mm = uh.mm ∧
        uh'.sys.isMapped = uh.sys.isMapped := by
    refine forall_fork (.inl ⟨rfl, rfl⟩) (.inr ⟨th, ht, rfl, rfl, rfl, ?_⟩)
      fun u uh _ hu => .inr ⟨uh, hu, rfl, rfl, rfl, rfl⟩
    rw [hsys]
    cases probed <;> rfl
  have hfresh := fun {u uh} (hu : s.tasks u = some uh) => h.fresh hpid hu
  -- the process of the child is that of the parent or a new one
  have htgid : ∀ {u uh}, s.tasks u = some uh → uh.tgid = (s.child th pid kind).tgid →
      kind = .thread ∧ uh.tgid = th.tgid := by
    intro u uh hu heq
    simp only [child] at heq
    split_ifs at heq with hkind
    · exact ⟨hkind, heq⟩
    · exact absurd heq (hfresh hu).2
  constructor
  · intro u v uh' vh' hu' hv' heq
    rcases hold u uh' hu' with ⟨rfl, rfl⟩ | ⟨uh, hu, hupid, hutgid, -⟩ <;>
      rcases hold v vh' hv' with ⟨rfl, rfl⟩ | ⟨vh, hv, hvpid, hvtgid, -⟩
    · rfl
    · exact absurd (hvtgid ▸ heq).symm (hfresh hv).2
    · rw [hupid] at heq
      rw [hutgid]
      simp only [child] at heq ⊢
      split_ifs at heq ⊢
      · exact hs.pid u t uh th hu ht heq
      · exact absurd heq (hfresh hu).1
    · rw [hutgid, hvtgid]
      exact hs.pid u v uh vh hu hv (by rw [← hupid, ← hvtgid, heq])
  · have hmm : ∀ {u uh}, s.tasks u = some uh → uh.tgid = (s.child th pid kind).tgid →
        uh.mm = (s.child th pid kind).mm := by
      intro u uh hu heq
      obtain ⟨rfl, heq⟩ := htgid hu heq
      exact hs.mm u t uh th hu ht heq
    intro u v uh' vh' hu' hv' heq
    rcases hold u uh' hu' with ⟨rfl, rfl⟩ | ⟨uh, hu, -, hutgid, humm, -⟩ <;>
      rcases hold v vh' hv' with ⟨rfl, rfl⟩ | ⟨vh, hv, -, hvtgid, hvmm, -⟩
    · rfl
    · exact (hvmm.trans (hmm hv (hvtgid ▸ heq.symm))).symm
    · exact humm.trans (hmm hu (hutgid ▸ heq))
    · rw [humm, hvmm]
      exact hs.mm u v uh vh hu hv (by rw [← hutgid, ← hvtgid, heq])
  · intro u v uh' vh' hu' hv' hm heq
    rcases hold u uh' hu' with ⟨rfl, rfl⟩ | ⟨uh, hu, -, hutgid, -, hmap⟩
    · cases hm
    · rw [hmap] at hm
      rcases hold v vh' hv' with ⟨rfl, rfl⟩ | ⟨vh, hv, -, hvtgid, -⟩
      · -- the parent is not in an exec, so it is another task of the process
        obtain ⟨-, heq⟩ := htgid hu (hutgid ▸ heq.symm)
        obtain rfl := hs.alone u t uh th hu ht hm heq.symm
        rw [Option.some.inj (hu.symm.trans ht), hsys] at hm
        cases hm
      · exact hs.alone u v uh vh hu hv hm (by rw [← hutgid, ← hvtgid, heq])

lemma execMmap (hs : s.TasksOk) (h : s.Inv) (ht : s.tasks t = some th) (x : Option InstId)
    (comm : String)
    (halone : (s.setTask t none).anyTask (fun u => u.tgid == th.tgid) = false) :
    (s.execMmap t th x comm).TasksOk := by
  have hold : ∀ u uh', (s.execMmap t th x comm).tasks u = some uh' →
      (u = t ∧ uh'.pid = th.tgid ∧ uh'.tgid = th.tgid) ∨
        (u ≠ t ∧ s.tasks u = some uh' ∧ uh'.tgid ≠ th.tgid) := by
    refine PartialMap.forall_update (fun u uh hne hu => ?_) fun uh huh => ?_
    · exact .inr ⟨hne, hu, h.alone halone hne hu⟩
    · cases huh
      exact .inl ⟨rfl, rfl, rfl⟩
  -- two tasks of one process, if one of them is the task itself, are the same
  have hone : ∀ {u v uh' vh'}, (s.execMmap t th x comm).tasks u = some uh' →
      (s.execMmap t th x comm).tasks v = some vh' → uh'.tgid = vh'.tgid →
      u = v ∨ (s.tasks u = some uh' ∧ s.tasks v = some vh') := by
    intro u v uh' vh' hu' hv' heq
    rcases hold u uh' hu' with ⟨rfl, -, hu⟩ | ⟨hne, hu, hutgid⟩ <;>
      rcases hold v vh' hv' with ⟨rfl, -, hv⟩ | ⟨hne', hv, hvtgid⟩
    · exact .inl rfl
    · exact absurd (heq.symm.trans hu) hvtgid
    · exact absurd (heq.trans hv) hutgid
    · exact .inr ⟨hu, hv⟩
  constructor
  · intro u v uh' vh' hu' hv' heq
    rcases hold u uh' hu' with ⟨rfl, hupid, hutgid⟩ | ⟨hne, hu, hutgid⟩
    · rw [hutgid, ← heq, hupid]
    · rcases hold v vh' hv' with ⟨rfl, -, hvtgid⟩ | ⟨hne', hv, hvtgid⟩
      · exact absurd (hs.pid u v uh' th hu ht (heq.trans hvtgid)) hutgid
      · exact hs.pid u v uh' vh' hu hv heq
  · intro u v uh' vh' hu' hv' heq
    rcases hone hu' hv' heq with rfl | ⟨hu, hv⟩
    · rw [Option.some.inj (hu'.symm.trans hv')]
    · exact hs.mm u v uh' vh' hu hv heq
  · intro u v uh' vh' hu' hv' hm heq
    rcases hone hv' hu' heq with rfl | ⟨hv, hu⟩
    · rfl
    · exact hs.alone u v uh' vh' hu hv hm heq

theorem step (hs : s.TasksOk) (h : s.Inv) (hstep : s.step a = some s') : s'.TasksOk := by
  cases taskEffect_of_step hstep with
  | quiet htasks hnext hmm hexecs hclones =>
    refine hs.of_keeps fun u uh hu => ⟨uh, htasks ▸ hu, rfl, rfl, rfl, id⟩
  | acts t th sys h' hacts heq =>
    subst heq
    refine hs.of_keeps (PartialMap.forall_update (fun u uh _ hu => ?_) fun uh huh => ?_)
    · exact ⟨uh, hu, rfl, rfl, rfl, id⟩
    · cases huh
      exact ⟨th, hacts.task, rfl, rfl, rfl, hacts.mapped⟩
  | fork t th pid kind probed ht hsys hpid heq =>
    subst heq
    exact hs.fork h ht hsys kind probed hpid
  | execMmap t th x comm ht hsys halone heq =>
    subst heq
    exact hs.execMmap h ht x comm halone
  | exit t th ht hsys heq =>
    subst heq
    refine hs.of_keeps (PartialMap.forall_update (fun u uh _ hu => ?_) nofun)
    exact ⟨uh, hu, rfl, rfl, rfl, id⟩
  | root t th ht hprot heq =>
    subst heq
    refine hs.of_keeps fun u uh' hu' => ?_
    obtain ⟨uh, hu, rfl⟩ := Option.map_eq_some_iff.mp hu'
    exact ⟨uh, hu, rfl, rfl, rfl, id⟩

end TasksOk

/-! ### Instances -/

/-- Each kretprobe instance in use is used by one task. -/
structure InstsOk (s : Inherit) : Prop where
  execs : Exclusive s.tasks (fun th => th.sys.inst) s.h.execs
  clones : Exclusive s.tasks (fun th => th.sys.got) s.h.clones

namespace InstsOk

lemma init : Inherit.init.InstsOk := by
  have hnone : ∀ t th, Inherit.init.tasks t = some th → th.sys = .user := by
    intro t th ht
    simp only [Inherit.init] at ht
    split_ifs at ht
    cases ht
    rfl
  constructor
  · refine ⟨fun t th x ht hx => ?_, fun t u th uh x ht _ hx _ => ?_⟩
    all_goals
      simp only [hnone t th ht] at hx
      cases hx
  · refine ⟨fun t th x ht hx => ?_, fun t u th uh x ht _ hx _ => ?_⟩
    all_goals
      simp only [hnone t th ht] at hx
      cases hx

/-- Tasks that use what they used, or nothing. -/
lemma of_keeps (hs : s.InstsOk) (hexecs : s'.h.execs = s.h.execs)
    (hclones : s'.h.clones = s.h.clones)
    (hkeep : ∀ u uh', s'.tasks u = some uh' → (uh'.sys.inst = none ∧ uh'.sys.got = none) ∨
      ∃ uh, s.tasks u = some uh ∧ uh.sys.inst = uh'.sys.inst ∧ uh.sys.got = uh'.sys.got) :
    s'.InstsOk := by
  constructor
  · rw [hexecs]
    exact hs.execs.mono fun u uh' hu' =>
      (hkeep u uh' hu').imp And.left fun ⟨uh, hu, hx, _⟩ => ⟨uh, hu, hx⟩
  · rw [hclones]
    exact hs.clones.mono fun u uh' hu' =>
      (hkeep u uh' hu').imp And.right fun ⟨uh, hu, _, hy⟩ => ⟨uh, hu, hy⟩

theorem step (hs : s.InstsOk) (hstep : s.step a = some s') : s'.InstsOk := by
  cases taskEffect_of_step hstep with
  | quiet htasks hnext hmm hexecs hclones =>
    exact hs.of_keeps hexecs hclones fun u uh hu => .inr ⟨uh, htasks ▸ hu, rfl, rfl⟩
  | acts t th sys h' hacts heq =>
    subst heq
    constructor
    · refine hs.execs.update hacts.task (fun x hx => ?_) hacts.execs
      exact ⟨(hacts.inst x hx).1, (hacts.inst x hx).2.imp_right And.left⟩
    · exact hs.clones.update hacts.task hacts.got hacts.clones
  | fork t th pid kind probed ht hsys hpid heq =>
    subst heq
    refine hs.of_keeps rfl rfl (forall_fork (.inl ⟨rfl, rfl⟩) (.inl ?_) fun u uh _ hu => ?_)
    · cases probed <;> exact ⟨rfl, rfl⟩
    · exact .inr ⟨uh, hu, rfl, rfl⟩
  | execMmap t th x comm ht hsys halone heq =>
    subst heq
    refine hs.of_keeps rfl rfl (PartialMap.forall_update (fun u uh _ hu => ?_) fun uh huh => ?_)
    · exact .inr ⟨uh, hu, rfl, rfl⟩
    · cases huh
      exact .inr ⟨th, ht, by rw [hsys]; rfl, by rw [hsys]; rfl⟩
  | exit t th ht hsys heq =>
    subst heq
    refine hs.of_keeps rfl rfl (PartialMap.forall_update (fun u uh _ hu => ?_) nofun)
    exact .inr ⟨uh, hu, rfl, rfl⟩
  | root t th ht hprot heq =>
    subst heq
    refine hs.of_keeps rfl rfl fun u uh' hu' => ?_
    obtain ⟨uh, hu, rfl⟩ := Option.map_eq_some_iff.mp hu'
    exact .inr ⟨uh, hu, rfl, rfl⟩

end InstsOk

end Inherit

end Anticheat
