import Anticheat.Handoff.Refs
import Anticheat.Inherit.Effects
import Anticheat.Registry.Cover

/-!
# What holds in every state

The registry and the handlers keep their own invariants when they run together. Beyond these, no
number is used before it is given out: tasks, references, entries and calls are about address
spaces that exist. Hence `mm_users` is at least what the references and tasks that are known make
it.
-/

namespace Anticheat

open Transition Ledger

/-! ### References across a step of the handlers -/

/-- The mm on which an action of a handler may take a reference. -/
def HandoffAct.mm : HandoffAct → Option ℕ
  | .entryPin _ m _ _ => some m
  | .execRet _ _ m _ _ _ _ => m
  | .cloneGet _ m _ _ _ => some m
  | _ => none

/-- The actions of the handlers while the probes are registered. -/
def HandoffAct.isHandler : HandoffAct → Bool
  | .discard _ => false
  | .unregister _ => false
  | .dropPin => false
  | .work _ _ => false
  | _ => true

lemma Handoff.dropped_subset_putOpt (s : Handoff) (o : Option Ref) :
    s.dropped ⊆ (s.putOpt o).dropped := by
  simp only [putOpt]
  split
  · exact List.Subset.refl _
  · exact List.subset_append_left _ _

lemma Handoff.WorkRule.dropped {s s' : Handoff} {a : ℕ} {r : AcProtAddReq} {w : WorkAct}
    (hw : WorkRule s a r w s') : s'.taken = s.taken ∧ s.dropped ⊆ s'.dropped := by
  cases hw with
  | adopt p hpc => exact ⟨rfl, List.subset_append_left _ _⟩
  | addedLate ret ret₁ post pid comm hpc => exact ⟨rfl, List.subset_append_left _ _⟩
  | unlinkSame ret p hpc hold hpost hmm => exact ⟨rfl, List.subset_append_left _ _⟩
  | putOld hpc => exact ⟨rfl, s.dropped_subset_putOpt r.oldMm⟩
  | finish hpc => exact ⟨rfl, List.subset_append_left _ _⟩
  | _ => exact ⟨rfl, List.Subset.refl _⟩

/-- A step takes references on its own mm only, and takes no drop back. -/
lemma Handoff.taken_of_step {s s' : Handoff} {act : HandoffAct} (hstep : s.step act = some s') :
    (∃ new, s'.taken = s.taken ++ new ∧ ∀ m ∈ new, act.mm = some m) ∧ s.dropped ⊆ s'.dropped := by
  have hnone : ∃ new, s.taken = s.taken ++ new ∧ ∀ m ∈ new, act.mm = some m :=
    ⟨[], (List.append_nil _).symm, nofun⟩
  have hone : ∀ m, act.mm = some m →
      ∃ new, s.taken ++ [m] = s.taken ++ new ∧ ∀ m ∈ new, act.mm = some m := by
    intro m hm
    refine ⟨[m], rfl, fun m' hm' => ?_⟩
    rw [List.mem_singleton.mp hm', hm]
  have hrefl := List.Subset.refl s.dropped
  have happ : ∀ k, s.dropped ⊆ s.dropped ++ [k] := fun k => List.subset_append_left _ _
  cases rule_of_step hstep with
  | pin x m pid comm i hreg hx hi => exact ⟨hone m rfl, hrefl⟩
  | pinUntracked x m pid comm hreg hx hi => exact ⟨hone m rfl, hrefl⟩
  | retPost x rc m pid comm jit addr c r hreg hx ha hr hid =>
    exact ⟨hone m rfl, s.dropped_subset_putOpt r.postMm⟩
  | retGone x rc m pid comm jit addr c hreg hx => exact ⟨hone m rfl, hrefl⟩
  | requeueDropped x c mm pid comm hx => exact ⟨hnone, happ _⟩
  | rekeyFailed x rc m pid comm jit addr old slot hreg hx hfail => exact ⟨hnone, happ _⟩
  | rekeySame x pid comm jit addr old slot hreg hx =>
    exact ⟨hone old.mm rfl, List.Subset.trans (happ _) (List.subset_append_left _ _)⟩
  | rekey x m pid comm jit a old slot hreg hx hm ha => exact ⟨hone m rfl, hrefl⟩
  | rekeyDropped x m pid comm jit old slot hreg hx hm =>
    exact ⟨hone m rfl, List.Subset.trans (happ _) (List.subset_append_left _ _)⟩
  | dropPin i hi hreg hidle => exact ⟨hnone, s.dropped_subset_putOpt (s.pins i)⟩
  | cloneSame y m cpid ccomm hy => exact ⟨hone m rfl, happ _⟩
  | cloneGet y m cur cpid ccomm hy hm => exact ⟨hone m rfl, hrefl⟩
  | cloneDropped y c ppid pcomm jit hy => exact ⟨hnone, happ _⟩
  | work a r w s' hr hw =>
    obtain ⟨htaken, hdropped⟩ := hw.dropped
    exact ⟨htaken ▸ hnone, hdropped⟩
  | _ => exact ⟨hnone, hrefl⟩

/-- What is held after a step was held before it, or is on the mm of the step. -/
lemma Handoff.Inv.held_of_step {s s' : Handoff} {act : HandoffAct} (h : s.Inv)
    (hstep : s.step act = some s') {p : Holder} {t : Ref} (hp : s'.held p = some t) :
    (∃ q u, s.held q = some u ∧ u.id = t.id ∧ u.mm = t.mm) ∨ act.mm = some t.mm := by
  obtain ⟨⟨new, htaken, hnew⟩, hdropped⟩ := taken_of_step hstep
  have h' : Accounted Ref.id Ref.mm s'.held (s.taken ++ new) s'.dropped :=
    htaken ▸ (h.step hstep).refs
  exact (Accounted.held_of_extend h.refs h' hdropped hp).imp_right (hnew _)

/-! ### Rekeys that delete -/

/-- A worker gets to `ac_del_prot_mm` by finding no other user of `old_mm`. -/
lemma Handoff.delOld_of_step {s s' : Handoff} {act : HandoffAct}
    (hstep : s.step act = some s') :
    ∀ a r', s'.reqs a = some r' → r'.pc = .delOld → ∃ r, s.reqs a = some r ∧ r.oldMm = r'.oldMm ∧
      (r.pc = .delOld ∨ (r.pc = .added 0 ∧ act = .work a (.users false))) := by
  have hsame : ∀ (b : ℕ) (q : AcProtAddReq), s.reqs b = some q → q.pc = .delOld →
      ∃ r, s.reqs b = some r ∧ r.oldMm = q.oldMm ∧
        (r.pc = .delOld ∨ (r.pc = .added 0 ∧ act = .work b (.users false))) :=
    fun b q hq hpc => ⟨q, hq, rfl, .inl hpc⟩
  cases rule_of_step hstep with
  | scanClaim x m tgid b r hx ha hr hclaim =>
    refine PartialMap.forall_update (fun c q _ => hsame c q) fun q hq hpc => ?_
    cases hq
    exact hsame b r hr hpc
  | retPost x rc m pid comm jit addr c r hreg hx ha hr hid =>
    refine PartialMap.forall_update (fun c q _ => hsame c q) fun q hq hpc => ?_
    cases hq
    exact hsame _ r hr hpc
  | retWake x rc pid comm jit addr c r hreg hx ha hr =>
    refine PartialMap.forall_update (fun c q _ => hsame c q) fun q hq hpc => ?_
    cases hq
    exact hsame _ r hr hpc
  | requeue x c mm pid comm b hx hb =>
    refine PartialMap.forall_update (fun c q _ => hsame c q) fun q hq hpc => ?_
    cases hq
    cases hpc
  | rekey x m pid comm jit b old slot hreg hx hm hb =>
    refine PartialMap.forall_update (fun c q _ => hsame c q) fun q hq hpc => ?_
    cases hq
    cases hpc
  | cloneSchedule y c ppid pcomm jit b hy hb =>
    refine PartialMap.forall_update (fun c q _ => hsame c q) fun q hq hpc => ?_
    cases hq
    cases hpc
  | work b r w s' hr hw =>
    cases hw with
    | delete old hpc hold =>
      refine PartialMap.forall_update (fun c q _ => hsame c q) fun q hq _ => ?_
      cases hq
      exact ⟨r, hr, rfl, .inr ⟨hpc, rfl⟩⟩
    | wake timedOut hpc hdone =>
      refine PartialMap.forall_update (fun c q _ => hsame c q) fun q hq hpc => ?_
      cases hq
      rw [AcProtAddReq.consume_pc] at hpc
      cases hpc
    | finish hpc => exact PartialMap.forall_update (fun c q _ => hsame c q) fun q hq => nomatch hq
    | _ =>
      refine PartialMap.forall_update (fun c q _ => hsame c q) fun q hq hpc => ?_
      cases hq
      cases hpc
  | _ => exact hsame

/-- A worker calls the registry for an mm on which its request holds a reference. -/
lemma AcProtAddReq.held_of_call {r : AcProtAddReq} {act : RegAct ℕ} (h : r.call = some act) :
    (∃ f t pid comm jit, r.held f = some t ∧ act = .addEnter t.mm pid comm jit) ∨
      ∃ old, r.pc = .delOld ∧ r.oldMm = some old ∧ act = .delEnter old.mm := by
  unfold call at h
  split at h
  · cases h
    exact .inl ⟨.mm, r.mm, _, _, _, rfl, rfl⟩
  · cases h
    exact .inl ⟨.mm, r.mm, _, _, _, rfl, rfl⟩
  · cases h
    exact .inl ⟨.mm, r.mm, _, _, _, rfl, rfl⟩
  · next ret post pid comm hpc =>
    cases h
    exact .inl ⟨.worker, post, _, _, _, by simp [held, hpc], rfl⟩
  · next hpc =>
    obtain ⟨old, hold, rfl⟩ := Option.map_eq_some_iff.mp h
    exact .inr ⟨old, hpc, hold, rfl⟩
  · cases h

/-! ### Tasks -/

namespace Inherit

/-- A task runs in the mm. -/
def TaskIn (s : Inherit) (m : ℕ) : Prop := ∃ t th, s.tasks t = some th ∧ th.mm = m

/-- The module holds a reference on the mm. -/
def Holds (s : Inherit) (m : ℕ) : Prop := ∃ p t, s.h.held p = some t ∧ t.mm = m

/-- Whether a task runs in the mm. -/
def inUse (s : Inherit) (m : ℕ) : Bool := s.anyTask fun th => th.mm == m

section Effects

variable {s s' : Inherit} {a : InheritAct}

/-- After a step a task is where some task was, or in a new address space. -/
lemma mm_of_step (hstep : s.step a = some s') :
    ∀ u uh, s'.tasks u = some uh → s.TaskIn uh.mm ∨ (uh.mm = s.nextMm ∧ s'.reg = s.reg) := by
  have hsame : ∀ {u uh}, s.tasks u = some uh →
      s.TaskIn uh.mm ∨ (uh.mm = s.nextMm ∧ s'.reg = s.reg) := fun hu => .inl ⟨_, _, hu, rfl⟩
  cases taskEffect_of_step hstep with
  | quiet htasks hnext hmm hexecs hclones =>
    rw [htasks]
    exact fun u uh => hsame
  | acts t th sys h' hacts heq =>
    subst heq
    refine PartialMap.forall_update (fun u uh _ => hsame) fun uh huh => ?_
    cases huh
    exact .inl ⟨t, th, hacts.task, rfl⟩
  | fork t th pid kind probed ht _ hpid heq =>
    subst heq
    refine forall_fork ?_ (.inl ⟨t, th, ht, rfl⟩) fun u uh _ => hsame
    simp only [child]
    split_ifs
    · exact .inr ⟨rfl, rfl⟩
    · exact hsame ht
  | execMmap t th x comm ht _ halone heq =>
    subst heq
    refine PartialMap.forall_update (fun u uh _ => hsame) fun uh huh => ?_
    cases huh
    exact .inr ⟨rfl, rfl⟩
  | exit t th ht _ heq =>
    subst heq
    exact PartialMap.forall_update (fun u uh _ => hsame) nofun
  | root t th ht hprot heq =>
    subst heq
    intro u uh' hu'
    obtain ⟨uh, hu, rfl⟩ := Option.map_eq_some_iff.mp hu'
    exact .inl ⟨u, uh, hu, rfl⟩

/-- What the handlers and the worker read in the step `a` is what is there: the handlers see the
task they run on. -/
def Current (s : Inherit) (a : InheritAct) : HandoffAct → Prop
  | .entryPin _ m _ _ => s.TaskIn m
  | .entryScan x m tgid => ∃ t th, a = .task t .execScan ∧ s.tasks t = some th ∧
      th.sys = .exec (some x) .entry ∧ m = th.mm ∧ tgid = th.tgid
  | .execRet x rc m pid _ _ addr => ∃ t th, a = .task t (.execRet rc addr) ∧
      s.tasks t = some th ∧ th.sys.inst = some x ∧ m = some th.mm ∧ pid = th.pid
  | .cloneGet _ m _ _ _ => s.TaskIn m
  | .work b w => a = .work b w ∧ ∀ r, s.h.reqs b = some r → s.workReads b r w = true
  | _ => True

lemma Current.taskIn {act : HandoffAct} {m : ℕ} (hc : s.Current a act) (hm : act.mm = some m) :
    s.TaskIn m := by
  cases act with
  | entryPin =>
    cases hm
    exact hc
  | execRet =>
    obtain ⟨t, th, -, ht, -, rfl, -⟩ := hc
    cases hm
    exact ⟨t, th, ht, rfl⟩
  | cloneGet =>
    cases hm
    exact hc
  | _ => cases hm

/-- A step of a handler, of a worker, or of neither, with the registry calls of the workers. -/
inductive WorkEffect (s s' : Inherit) : InheritAct → Prop where
  | quiet {a : InheritAct} (hh : s'.h = s.h) (hcall : s'.call = s.call) : WorkEffect s s' a
  | handler {a : InheritAct} (act : HandoffAct) (hh : s.h.step act = some s'.h)
      (hact : act.isHandler = true) (hcur : s.Current a act) (hreg : s'.reg = s.reg)
      (hcall : s'.call = s.call) : WorkEffect s s' a
  | work (b : ℕ) (w : WorkAct) (r : AcProtAddReq) (hr : s.h.reqs b = some r)
      (hreads : s.workReads b r w = true) (hw : s.h.WorkRule b r w s'.h)
      (hh : s.h.step (.work b w) = some s'.h) (hreg : s'.reg = s.reg)
      (hcall : s'.call = Function.update s.call b none) : WorkEffect s s' (.work b w)
  | call (b : ℕ) (r : AcProtAddReq) (act : RegAct ℕ) (hr : s.h.reqs b = some r)
      (hnone : s.call b = none) (hact : r.call = some act)
      (hreg : s.reg.step act = some s'.reg) (hh : s'.h = s.h)
      (hcall : s'.call = Function.update s.call b (some s.reg.calls.length)) :
      WorkEffect s s' (.workCall b)

theorem workEffect_of_step (hstep : s.step a = some s') : WorkEffect s s' a := by
  cases rule_of_step hstep with
  | cloneSame t th child u y c h' ht hsys hu hmm hh =>
    exact .handler _ hh rfl ⟨u, c, hu, rfl⟩ rfl rfl
  | cloneGet t th child u y c h' ht hsys hu hmm hh =>
    exact .handler _ hh rfl ⟨u, c, hu, rfl⟩ rfl rfl
  | cloneSchedule t th child y addr h' ht hsys hh => exact .handler _ hh rfl trivial rfl rfl
  | execPin t th x h' ht hsys hprot hh => exact .handler _ hh rfl ⟨t, th, ht, rfl⟩ rfl rfl
  | execMiss t th x h' ht hsys hprot hh => exact .handler _ hh rfl trivial rfl rfl
  | execScan t th x h' ht hsys hh =>
    exact .handler _ hh rfl ⟨t, th, rfl, ht, hsys, rfl, rfl⟩ rfl rfl
  | execRet t th x mapped rc addr h' ht hsys hrc hh hx =>
    exact .handler _ hh rfl ⟨t, th, rfl, ht, by rw [hsys]; rfl, rfl, rfl⟩ rfl rfl
  | execGone t th x mapped rc addr h' ht hsys hrc hh hx =>
    exact .handler _ hh rfl ⟨t, th, rfl, ht, by rw [hsys]; rfl, rfl, rfl⟩ rfl rfl
  | execRequeue t th x mapped dying addr h' ht hsys hh =>
    exact .handler _ hh rfl trivial rfl rfl
  | work b w r h' hr hreads hh =>
    cases Handoff.rule_of_step hh with
    | work _ r' _ _ hr' hw =>
      cases hr.symm.trans hr'
      exact .work b w r hr hreads hw hh rfl rfl
  | workCall b r act reg' hr hnone hcall hreg => exact .call b r act hr hnone hcall hreg rfl rfl
  | _ => exact .quiet rfl rfl

lemma h_of_step (hstep : s.step a = some s') :
    s'.h = s.h ∨ ∃ act, s.h.step act = some s'.h ∧ s.Current a act := by
  cases workEffect_of_step hstep with
  | quiet hh hcall => exact .inl hh
  | handler act hh hact hcur hreg hcall => exact .inr ⟨act, hh, hcur⟩
  | work b w r hr hreads hw hh hreg hcall =>
    refine .inr ⟨.work b w, hh, rfl, fun r' hr' => ?_⟩
    rw [← Option.some.inj (hr.symm.trans hr')]
    exact hreads
  | call b r act hr hnone hact hreg hh hcall => exact .inl hh

end Effects

/-- No task runs in the mm, and only one place refers to it. -/
def OnlyAt (s : Inherit) (m : ℕ) (p : Holder) : Prop :=
  ¬ s.TaskIn m ∧ ∀ q u, s.h.held q = some u → u.mm = m → q = p

/-- Beside the invariants of the parts: numbers are fresh, and an old mm that a worker is about to
delete, or has deleted, has no other user. -/
structure Inv (s : Inherit) : Prop where
  reg : s.reg.Inv
  h : s.h.Inv
  tasks : ∀ t th, s.tasks t = some th → t < s.nextTask ∧ th.mm < s.nextMm
  taken : ∀ m ∈ s.h.taken, m < s.nextMm
  within : s.reg.Within (· < s.nextMm)
  dels : ∀ a r old, s.h.reqs a = some r → r.pc = .delOld → r.oldMm = some old →
    s.OnlyAt old.mm (.req a .oldMm)

namespace Inv

variable {s s' : Inherit} {t : ℕ} {th : Thread} {m : ℕ}

lemma init : Inherit.init.Inv where
  reg := .init
  h := .init
  tasks t th ht := by
    simp only [Inherit.init] at ht
    split_ifs at ht with h0
    cases ht
    exact ⟨h0 ▸ Nat.one_pos, Nat.one_pos⟩
  taken := nofun
  within := .init
  dels _ _ _ h := nomatch h

/-! ### Looking for tasks -/

lemma anyTask_iff (h : s.Inv) {p : Thread → Bool} :
    s.anyTask p = true ↔ ∃ t th, s.tasks t = some th ∧ p th = true := by
  simp only [anyTask, List.any_eq_true, List.mem_range, Option.any_eq_true]
  constructor
  · rintro ⟨t, -, th, ht, hp⟩
    exact ⟨t, th, ht, hp⟩
  · rintro ⟨t, th, ht, hp⟩
    exact ⟨t, (h.tasks t th ht).1, th, ht, hp⟩

lemma inUse_iff (h : s.Inv) : s.inUse m = true ↔ s.TaskIn m := by
  rw [inUse, h.anyTask_iff]
  simp only [beq_iff_eq]
  rfl

lemma tasksIn_pos (h : s.Inv) (hm : s.TaskIn m) : 0 < s.tasksIn m := by
  obtain ⟨t, th, ht, rfl⟩ := hm
  rw [tasksIn, List.countP_pos_iff]
  exact ⟨t, List.mem_range.mpr (h.tasks t th ht).1, by simp [ht]⟩

/-! ### Users of an address space -/

lemma lt_nextMm_of_held (h : s.Inv) {p : Holder} {r : Ref} (hp : s.h.held p = some r) :
    r.mm < s.nextMm :=
  h.taken r.mm (List.mem_of_getElem? (h.h.refs.res_eq p r hp))

lemma mmUsers_pos (h : s.Inv) (hm : s.TaskIn m ∨ s.Holds m) : 0 < s.mmUsers m := by
  unfold mmUsers
  rcases hm with hm | ⟨p, r, hp, rfl⟩
  · have := h.tasksIn_pos hm
    omega
  · have := h.h.refs.outstanding_pos hp
    omega

/-- A worker that reads 1 from `mm_users` has the only reference. -/
lemma onlyAt_of_users (h : s.Inv) {a : ℕ} {r : AcProtAddReq} {old : Ref}
    (hr : s.h.reqs a = some r) (hpc : r.pc = .added 0) (hold : r.oldMm = some old)
    (hreads : s.workReads a r (.users false) = true) : s.OnlyAt old.mm (.req a .oldMm) := by
  have hheld : s.h.held (.req a .oldMm) = some old := by
    rw [Handoff.RefsOk.held_of_reqs hr]
    simp [AcProtAddReq.held, hpc, hold]
  have husers : s.mmUsers old.mm ≤ 1 := by simpa [workReads, hold] using hreads
  have hpos := h.h.refs.outstanding_pos hheld
  unfold mmUsers at husers
  constructor
  · intro hin
    have := h.tasksIn_pos hin
    omega
  · intro p u hp hmm
    by_contra hne
    have := h.h.refs.two_le_outstanding hheld hp (Ne.symm hne) hmm
    omega

/-- The only reference stays the only one. -/
lemma onlyAt_step (h : s.Inv) {a : InheritAct} (hstep : s.step a = some s') {p : Holder}
    {r : Ref} (honly : s.OnlyAt r.mm p) (hp : s.h.held p = some r)
    (hp' : s'.h.held p = some r) : s'.OnlyAt r.mm p := by
  constructor
  · rintro ⟨u, uh, hu, hmm⟩
    rcases mm_of_step hstep u uh hu with hin | ⟨hnew, -⟩
    · exact honly.1 (hmm ▸ hin)
    · exact absurd (h.lt_nextMm_of_held hp) (not_lt.mpr (hmm ▸ hnew.ge))
  · intro q u hq hmm
    rcases h_of_step hstep with hh | ⟨act, hh, hcur⟩
    · exact honly.2 q u (hh ▸ hq) hmm
    · rcases h.h.held_of_step hh hq with ⟨q', u', hq', hid, hmm'⟩ | hact
      · obtain rfl := honly.2 q' u' hq' (hmm'.trans hmm)
        rw [hp] at hq'
        cases hq'
        exact (h.h.step hh).refs.inj q q' u r hq hp' hid.symm
      · exact absurd (hmm ▸ hcur.taskIn hact) honly.1

/-! ### Steps -/

lemma dels_step (h : s.Inv) {a : InheritAct} (hstep : s.step a = some s') :
    ∀ b r old, s'.h.reqs b = some r → r.pc = .delOld → r.oldMm = some old →
      s'.OnlyAt old.mm (.req b .oldMm) := by
  intro b r' old hr' hpc' hold'
  have hheld : ∀ {h : Handoff} {r : AcProtAddReq}, h.reqs b = some r → r.pc ≠ .putMm →
      r.oldMm = some old → h.held (.req b .oldMm) = some old := by
    intro h r hr hpc hold
    rw [Handoff.RefsOk.held_of_reqs hr]
    simp [AcProtAddReq.held, hpc, hold]
  have hp' := hheld hr' (by simp [hpc']) hold'
  rcases h_of_step hstep with hh | ⟨act, hh, hcur⟩
  · rw [hh] at hr'
    exact h.onlyAt_step hstep (h.dels b r' old hr' hpc' hold') (hh ▸ hp') hp'
  · obtain ⟨r, hr, hold, hpc⟩ := Handoff.delOld_of_step hh b r' hr' hpc'
    rw [hold'] at hold
    rcases hpc with hpc | ⟨hpc, rfl⟩
    · exact h.onlyAt_step hstep (h.dels b r old hr hpc hold) (hheld hr (by simp [hpc]) hold) hp'
    · have honly := h.onlyAt_of_users hr hpc hold (hcur.2 r hr)
      exact h.onlyAt_step hstep honly (hheld hr (by simp [hpc]) hold) hp'

/-- A worker calls the registry for address spaces that exist. -/
lemma about_of_call (h : s.Inv) {a : ℕ} {r : AcProtAddReq} {act : RegAct ℕ}
    (hr : s.h.reqs a = some r) (hcall : r.call = some act) : act.About (· < s.nextMm) := by
  rcases AcProtAddReq.held_of_call hcall with ⟨f, u, pid, comm, jit, hf, rfl⟩ |
    ⟨old, hpc, hold, rfl⟩
  · exact h.lt_nextMm_of_held ((Handoff.RefsOk.held_of_reqs hr f).trans hf)
  · refine h.lt_nextMm_of_held (p := Holder.req a .oldMm) ?_
    rw [Handoff.RefsOk.held_of_reqs hr]
    simp [AcProtAddReq.held, hpc, hold]

lemma about_of_isInternal {a : RegAct ℕ} {P : ℕ → Prop} (ha : a.isInternal = true) :
    a.About P := by
  cases a with
  | addEnter => cases ha
  | delEnter => cases ha
  | _ => trivial

/-- A step calls the registry for address spaces that exist. -/
lemma about_of_step (h : s.Inv) {a : InheritAct} (hstep : s.step a = some s') :
    s'.reg = s.reg ∨ ∃ act, s.reg.step act = some s'.reg ∧ act.About (· < s.nextMm) := by
  cases rule_of_step hstep with
  | addProc t th jit reg' ht hreg => exact .inr ⟨_, hreg, (h.tasks t th ht).2⟩
  | mmExit m reg' hm husers hreg => exact .inr ⟨_, hreg, trivial⟩
  | delProc m reg' hm hreg => exact .inr ⟨_, hreg, hm⟩
  | reg a reg' ha hreg => exact .inr ⟨_, hreg, about_of_isInternal ha⟩
  | workCall a r act reg' hr hnone hcall hreg => exact .inr ⟨_, hreg, h.about_of_call hr hcall⟩
  | _ => exact .inl rfl

/-- Numbers are given out in order. -/
lemma tasks_step (h : s.Inv) {a : InheritAct} (hstep : s.step a = some s') :
    s.nextMm ≤ s'.nextMm ∧
      ∀ u uh, s'.tasks u = some uh → u < s'.nextTask ∧ uh.mm < s'.nextMm := by
  cases taskEffect_of_step hstep with
  | quiet htasks hnext hmm hexecs hclones =>
    rw [htasks, hnext, hmm]
    exact ⟨le_refl _, h.tasks⟩
  | acts t th sys h' hacts heq =>
    subst heq
    refine ⟨le_refl _, PartialMap.forall_update (fun u uh _ => h.tasks u uh) fun uh huh => ?_⟩
    cases huh
    exact h.tasks t th hacts.task
  | fork t th pid kind probed ht _ hpid heq =>
    subst heq
    have hle : s.nextMm ≤ if kind = .copy then s.nextMm + 1 else s.nextMm := by
      split_ifs
      · exact Nat.le_succ _
      · exact le_refl _
    refine ⟨hle, forall_fork ⟨Nat.lt_succ_self _, ?_⟩ ?_ fun u uh _ hu => ?_⟩
    · simp only [Inherit.fork, child]
      split_ifs
      · exact Nat.lt_succ_self _
      · exact (h.tasks t th ht).2
    · exact ⟨Nat.lt_succ_of_lt (h.tasks t th ht).1, (h.tasks t th ht).2.trans_le hle⟩
    · exact ⟨Nat.lt_succ_of_lt (h.tasks u uh hu).1, (h.tasks u uh hu).2.trans_le hle⟩
  | execMmap t th x comm ht _ halone heq =>
    subst heq
    refine ⟨Nat.le_succ _, PartialMap.forall_update (fun u uh _ hu => ?_) fun uh huh => ?_⟩
    · exact ⟨(h.tasks u uh hu).1, Nat.lt_succ_of_lt (h.tasks u uh hu).2⟩
    · cases huh
      exact ⟨(h.tasks t th ht).1, Nat.lt_succ_self _⟩
  | exit t th ht _ heq =>
    subst heq
    exact ⟨le_refl _, PartialMap.forall_update (fun u uh _ => h.tasks u uh) nofun⟩
  | root t th ht hprot heq =>
    subst heq
    refine ⟨le_refl _, fun u uh' hu' => ?_⟩
    obtain ⟨uh, hu, rfl⟩ := Option.map_eq_some_iff.mp hu'
    exact h.tasks u uh hu

theorem step {a : InheritAct} (h : s.Inv) (hstep : s.step a = some s') : s'.Inv := by
  obtain ⟨hle, htasks⟩ := h.tasks_step hstep
  have hh := h_of_step hstep
  have hreg := h.about_of_step hstep
  constructor
  · rcases hreg with hreg | ⟨act, hreg, -⟩
    · exact hreg ▸ h.reg
    · exact h.reg.step hreg
  · rcases hh with hh | ⟨act, hh, -⟩
    · exact hh ▸ h.h
    · exact h.h.step hh
  · exact htasks
  · intro m hm
    rcases hh with hh | ⟨act, hh, hcur⟩
    · exact (h.taken m (hh ▸ hm)).trans_le hle
    · obtain ⟨⟨new, htaken, hnew⟩, -⟩ := Handoff.taken_of_step hh
      rcases List.mem_append.mp (htaken ▸ hm) with hm | hm
      · exact (h.taken m hm).trans_le hle
      · obtain ⟨t, th, ht, rfl⟩ := hcur.taskIn (hnew m hm)
        exact (h.tasks t th ht).2.trans_le hle
  · refine Registry.Within.mono (P := (· < s.nextMm)) ?_ fun m hm => Nat.lt_of_lt_of_le hm hle
    rcases hreg with hreg | ⟨act, hreg, ha⟩
    · exact hreg ▸ h.within
    · exact h.within.step ha hreg
  · exact h.dels_step hstep

theorem of_run {as : List InheritAct} (h : s.Inv) (hrun : run Inherit.step s as = some s') :
    s'.Inv :=
  run_invariant (fun _ _ _ hs hstep => hs.step hstep) h hrun

end Inv

end Inherit

end Anticheat
