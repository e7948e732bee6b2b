import Anticheat.Inherit.Coverage

/-!
# Execs out of a protected address space

An exec out of a protected address space holds the old mm in its kretprobe instance, then in the
rekey request that it queues, until the worker has read `mm_users` and has removed the old entry or
kept it. `YetToRead` says who is still to read. As long as the execs succeed and the worker that
keeps the entry does so on account of somebody who is still to read, there is such a reader, or a
worker that goes on to remove the entry.
-/

namespace Anticheat

open Transition

/-! ### References on an old address space -/

/-- A worker registers an mm on which its request holds a reference, and not as the old one. -/
lemma AcProtAddReq.held_of_addEnter {r : AcProtAddReq} {m : ℕ} {pid : ℤ} {comm : String}
    {jit : Bool} (h : r.call = some (.addEnter m pid comm jit)) :
    ∃ f t, f ≠ .oldMm ∧ r.held f = some t ∧ t.mm = m := by
  unfold call at h
  split at h
  · cases h
    exact ⟨.mm, r.mm, nofun, rfl, rfl⟩
  · cases h
    exact ⟨.mm, r.mm, nofun, rfl, rfl⟩
  · cases h
    exact ⟨.mm, r.mm, nofun, rfl, rfl⟩
  · next ret post pid comm hpc =>
    cases h
    exact ⟨.worker, post, nofun, by simp [held, hpc], rfl⟩
  · obtain ⟨old, -, hact⟩ := Option.map_eq_some_iff.mp h
    cases hact
  · cases h

namespace Handoff

variable {s s' : Handoff} {act : HandoffAct} {b : ℕ} {r : AcProtAddReq} {u : Ref}

lemma held_oldMm_iff : s.held (.req b .oldMm) = some u ↔
    ∃ r, s.reqs b = some r ∧ r.pc ≠ .putMm ∧ r.oldMm = some u := by
  simp only [held, Option.bind_eq_some_iff, AcProtAddReq.held]
  refine exists_congr fun r => and_congr_right fun _ => ?_
  split_ifs with hpc <;> simp [hpc]

/-- The worker of a rekey drops the old mm or leaves it where it is. -/
lemma WorkRule.held_oldMm {w : WorkAct} (hw : s.WorkRule b r w s') (hok : r.Ok)
    (hpc : r.pc ≠ .putMm) (hold : r.oldMm = some u) :
    s'.held (.req b .oldMm) = some u ∨ u.id ∈ s'.dropped := by
  have hkind := hok.kind
  have hkeep : ∀ {pc : WorkPc} {h : Handoff}, h.reqs b = some { r with pc := pc } → pc ≠ .putMm →
      h.held (.req b .oldMm) = some u := fun hr hne => held_oldMm_iff.mpr ⟨_, hr, hne, hold⟩
  cases hw with
  | addMm | addedMm | keep | delete | rekeyFail | deleted =>
    exact .inl (hkeep (Function.update_self _ _ _) (by simp))
  | putOld hput => exact .inr (by simp [putOpt, hold])
  | finish hput => exact absurd hput hpc
  | wait _ hnone | unlinkNone _ _ hnone | unlinkSame _ _ _ hnone | unlinkLate _ _ _ hnone =>
    cases hold.symm.trans hnone
  -- these branches are for fork-inherit requests
  | wake _ h | adopt _ h | lost h | addedPost _ h | addedLost _ h | addedLate _ _ _ _ _ h =>
    simp [AcProtAddReq.KindOk, h, hold] at hkind

lemma Inv.held_oldMm_of_step (h : s.Inv) (hstep : s.step act = some s')
    (hact : act.isHandler = true ∨ ∃ b w, act = .work b w)
    (hb : s.held (.req b .oldMm) = some u) :
    s'.held (.req b .oldMm) = some u ∨ u.id ∈ s'.dropped := by
  obtain ⟨r, hr, hpc, hold⟩ := held_oldMm_iff.mp hb
  rcases hact with hact | ⟨b', w, rfl⟩
  · obtain ⟨r', hr', hkept, -⟩ := kept_of_step h.linked hstep hact b r hr
    exact .inl (held_oldMm_iff.mpr ⟨r', hr', hkept.pc ▸ hpc, hkept.oldMm.trans hold⟩)
  · cases rule_of_step hstep with
    | work _ r' _ _ hr' hw =>
      by_cases hbb : b = b'
      · subst hbb
        cases hr.symm.trans hr'
        exact hw.held_oldMm (h.linked.ok b r hr) hpc hold
      · exact .inl (held_oldMm_iff.mpr ⟨r, (hw.reqs_of_ne hbb).trans hr, hpc, hold⟩)

end Handoff

/-! ### Execs out of an address space -/

/-- The instance holds the mm as that of the exec's old image. -/
def Handoff.pinsOld (s : Handoff) (m : ℕ) (x : InstId) : Bool :=
  match s.execs x with
  | some (.pinned old _) => old.mm == m
  | _ => false

lemma Handoff.pinsOld_iff {s : Handoff} {m : ℕ} {x : InstId} :
    s.pinsOld m x = true ↔ ∃ old slot, s.execs x = some (.pinned old slot) ∧ old.mm = m := by
  unfold pinsOld
  split
  · next old slot hx => simp [hx]
  · next hx => simpa using fun old slot h => absurd h (hx old slot)

/-- The request is that of an exec out of the mm. -/
def AcProtAddReq.leaves (r : AcProtAddReq) (m : ℕ) : Bool := r.oldMm.any fun old => old.mm == m

lemma AcProtAddReq.leaves_iff {r : AcProtAddReq} {m : ℕ} :
    r.leaves m = true ↔ ∃ old, r.oldMm = some old ∧ old.mm = m := by
  simp [leaves, Option.any_eq_true]

/-- The worker of a rekey has yet to read `mm_users`. -/
def WorkPc.beforeRead : WorkPc → Bool
  | .queued => true
  | .addMm => true
  | .added ret => ret == 0
  | _ => false

/-- Who is going to read `mm_users` of an old mm: an exec past `exec_mmap` whose handler has not
returned, or a request. -/
inductive Reader where
  | exec (x : InstId)
  | req (b : ℕ)
  deriving DecidableEq, Repr

namespace Inherit

/-- The exec out of the mm is over, and its worker has yet to read `mm_users`. -/
def YetToRead (s : Inherit) (m : ℕ) : Reader → Prop
  | .exec x => (∃ t th, s.tasks t = some th ∧ th.sys = .exec (some x) .mapped) ∧
      s.h.pinsOld m x = true
  | .req b => ∃ r, s.h.reqs b = some r ∧ r.leaves m = true ∧ r.pc.beforeRead = true

/-- Every exec out of the mm that has begun holds it. -/
def Pinned (s : Inherit) (m : ℕ) : Prop :=
  ∀ t th x pc, s.tasks t = some th → th.mm = m → th.sys = .exec x pc → pc = .entry ∨ pc = .inside →
    ∃ y, x = some y ∧ s.h.pinsOld m y = true

/-- The execs out of the mm that are over carry the protection over: the probe is not missed, the
exec does not fail past `exec_mmap`, its request can be allocated and its new image be registered.
And nobody calls `DEL_PROC` for the mm. -/
def carriesOver (m : ℕ) (s : Inherit) : InheritAct → Bool
  | .task t (.execEntry x) => (s.tasks t).all fun th => th.mm != m || x.isSome
  | .task t (.execRet rc addr) =>
    (s.tasks t).all fun th =>
      match th.sys with
      | .exec (some x) .mapped => !s.h.pinsOld m x || rc == 0 && addr.isSome
      | _ => true
  | .delProc m' => m' != m
  | .work b (.added ret) => (s.h.reqs b).all fun r => !r.leaves m || ret == 0
  | _ => true

/-- A worker that finds its old mm in use is right to leave the entry there: a task runs in the mm,
or somebody else has yet to read `mm_users`. -/
def SeesOthers (m : ℕ) (s : Inherit) : InheritAct → Prop
  | .work b (.users true) => ∀ r, s.h.reqs b = some r → r.leaves m = true → r.pc = .added 0 →
      s.inUse m = true ∨ ∃ k, k ≠ .req b ∧ s.YetToRead m k
  | _ => True

variable {s s' : Inherit} {a : InheritAct} {m b : ℕ}

/-! ### Readers across a step -/

/-- The request of an exec out of the mm holds it until the worker drops it. -/
lemma holds_of_leaves {r : AcProtAddReq} (hr : s.h.reqs b = some r) (hleaves : r.leaves m = true)
    (hpc : r.pc ≠ .putMm) : s.Holds m := by
  obtain ⟨old, hold, rfl⟩ := AcProtAddReq.leaves_iff.mp hleaves
  exact ⟨.req b .oldMm, old, Handoff.held_oldMm_iff.mpr ⟨r, hr, hpc, hold⟩, rfl⟩

/-- What a reader waits for makes the module hold the mm. -/
lemma YetToRead.holds {k : Reader} (hk : s.YetToRead m k) (h : s.Inv)
    (hreg : ∀ p, s.h.registered p = true) : s.Holds m := by
  cases k with
  | exec x =>
    obtain ⟨old, slot, hx, rfl⟩ := Handoff.pinsOld_iff.mp hk.2
    obtain ⟨i, rfl⟩ := Option.ne_none_iff_exists'.mp (h.h.pins.tracked x old slot hx)
    exact ⟨.pin i, old, (h.h.pins.pinned x old i hx (hreg x.1)).1, rfl⟩
  | req b =>
    obtain ⟨r, hr, hleaves, hpc⟩ := hk
    refine holds_of_leaves hr hleaves ?_
    rintro heq
    rw [heq] at hpc
    cases hpc

/-- A step of somebody else leaves a request where it stands. -/
lemma Inv.req_of_step (h : s.Inv) (hstep : s.step a = some s') {r : AcProtAddReq}
    (hr : s.h.reqs b = some r) (hne : ∀ w, a ≠ .work b w) :
    ∃ r', s'.h.reqs b = some r' ∧ r.Kept r' := by
  cases workEffect_of_step hstep with
  | quiet hh hcall => exact ⟨r, hh ▸ hr, .refl r⟩
  | handler act hh hact hcur hreg hcall =>
    obtain ⟨r', hr', hkept, -⟩ := Handoff.kept_of_step h.h.linked hh hact b r hr
    exact ⟨r', hr', hkept⟩
  | work c w q hq hreads hw hh hreg hcall =>
    have hbc : b ≠ c := fun heq => hne w (heq ▸ rfl)
    exact ⟨r, (hw.reqs_of_ne hbc).trans hr, .refl r⟩
  | call c q act hq hnone hact hreg hh hcall => exact ⟨r, hh ▸ hr, .refl r⟩

/-- A request that has yet to read waits on, whatever the others do. -/
lemma Inv.yetToRead_req (h : s.Inv) (hstep : s.step a = some s') (hk : s.YetToRead m (.req b))
    (hne : ∀ w, a ≠ .work b w) : s'.YetToRead m (.req b) := by
  obtain ⟨r, hr, hold, hpc⟩ := hk
  obtain ⟨r', hr', hkept⟩ := h.req_of_step hstep hr hne
  refine ⟨r', hr', ?_, hkept.pc ▸ hpc⟩
  rwa [AcProtAddReq.leaves, hkept.oldMm]

/-- So does an exec that has not returned. -/
lemma Inv.yetToRead_exec (h : s.Inv) (hi : s.InstsOk) (hstep : s.step a = some s') {t : ℕ}
    {th : Thread} {x : InstId} (ht : s.tasks t = some th) (hsys : th.sys = .exec (some x) .mapped)
    (hx : s.h.pinsOld m x = true) (hne : ∀ act, a ≠ .task t act) : s'.YetToRead m (.exec x) := by
  obtain ⟨⟨tree, ht', -⟩, -, hexecs⟩ := others_of_step h hi hstep ht hne
  refine ⟨⟨t, _, ht', hsys⟩, ?_⟩
  rwa [Handoff.pinsOld, hexecs x (by rw [hsys]; rfl)]

/-- All that a task past `exec_mmap` does for itself is to return. -/
lemma mapped_of_step {t : ℕ} {th : Thread} {x : InstId} {act : TaskAct}
    (hstep : s.step (.task t act) = some s') (ht : s.tasks t = some th)
    (hsys : th.sys = .exec (some x) .mapped) :
    (s'.h = s.h ∧ ∃ tree, s'.tasks t = some { th with tree := tree }) ∨
      ∃ rc addr, act = .execRet rc addr ∧
        s.h.step (.execRet x rc (some th.mm) th.pid th.comm (s.oldJit x) addr) = some s'.h := by
  obtain ⟨th', ht', hstep⟩ := Option.bind_eq_some_iff.mp hstep
  cases ht.symm.trans ht'
  cases act with
  | root =>
    simp only [taskStep] at hstep
    split_ifs at hstep
    cases hstep
    exact .inl ⟨rfl, _, by simp only [ht, Option.map_some]; rfl⟩
  | pinForeign =>
    cases hstep
    exact .inl ⟨rfl, th.tree, ht⟩
  | addProc jit =>
    obtain ⟨reg', -, rfl⟩ := registry_eq_some.mp hstep
    exact .inl ⟨rfl, th.tree, ht⟩
  | execRet rc addr =>
    simp only [taskStep, hsys] at hstep
    obtain ⟨h', hh, rfl⟩ := map_handoff_eq_some.mp hstep
    exact .inr ⟨rc, addr, rfl, hh⟩
  | _ => simp [taskStep, hsys] at hstep

/-- The exec returns and leaves the reading to its request. -/
lemma yetToRead_of_task {t : ℕ} {th : Thread} {x : InstId} {act : TaskAct}
    (hstep : s.step (.task t act) = some s') (hcarry : s.carriesOver m (.task t act) = true)
    (hin : ¬ s.TaskIn m) (ht : s.tasks t = some th) (hsys : th.sys = .exec (some x) .mapped)
    (hx : s.h.pinsOld m x = true) : ∃ k, s'.YetToRead m k := by
  rcases mapped_of_step hstep ht hsys with ⟨hh, tree, ht'⟩ | ⟨rc, addr, rfl, hh⟩
  · exact ⟨.exec x, ⟨t, _, ht', hsys⟩, by rwa [hh]⟩
  · obtain ⟨rfl, haddr⟩ : rc = 0 ∧ addr.isSome = true := by
      simpa [carriesOver, ht, hsys, hx] using hcarry
    obtain ⟨old, slot, hexec, rfl⟩ := Handoff.pinsOld_iff.mp hx
    have hne : old.mm ≠ th.mm := fun heq => hin ⟨t, th, ht, heq.symm⟩
    obtain ⟨b, r, hr, hold, hpc, -⟩ := Handoff.execRet_of_pinned hh hexec hne haddr
    exact ⟨.req b, r, hr, AcProtAddReq.leaves_iff.mpr ⟨old, hold, rfl⟩, by rw [hpc]; rfl⟩

/-- The worker of the request at `b` is about to call `ac_del_prot_mm`. -/
def Deletes (s : Inherit) (m b : ℕ) : Prop :=
  ∃ r, s.h.reqs b = some r ∧ r.leaves m = true ∧ r.pc = .delOld ∧ s.call b = none

/-- The worker comes closer to the reading, or reads. -/
lemma yetToRead_of_work {w : WorkAct} (hstep : s.step (.work b w) = some s')
    (hcarry : s.carriesOver m (.work b w) = true) (hk : s.YetToRead m (.req b)) :
    s'.YetToRead m (.req b) ∨ s'.Deletes m b ∨
      (w = .users true ∧ ∃ r, s.h.reqs b = some r ∧ r.leaves m = true ∧ r.pc = .added 0) := by
  obtain ⟨r, hr, hleaves, hbefore⟩ := hk
  obtain ⟨old, hold, -⟩ := AcProtAddReq.leaves_iff.mp hleaves
  cases rule_of_step hstep with
  | work _ _ q h' hq hreads hh =>
    cases hr.symm.trans hq
    cases Handoff.rule_of_step hh with
    | work _ q _ _ hq hw =>
      cases hr.symm.trans hq
      cases hw with
      | addMm hpc hfree => exact .inl ⟨_, Function.update_self _ _ _, hleaves, rfl⟩
      | addedMm ret hpc =>
        obtain rfl : ret = 0 := by simpa [carriesOver, hr, hleaves] using hcarry
        exact .inl ⟨_, Function.update_self _ _ _, hleaves, rfl⟩
      | keep old hpc hold' => exact .inr (.inr ⟨rfl, r, hr, hleaves, hpc⟩)
      | delete old hpc hold' =>
        exact .inr (.inl ⟨_, Function.update_self _ _ _, hleaves, rfl, Function.update_self _ _ _⟩)
      | rekeyFail ret old shared hpc hold' hret => simp [hpc, WorkPc.beforeRead, hret] at hbefore
      | wait _ hnone | unlinkNone _ _ hnone | unlinkSame _ _ _ hnone | unlinkLate _ _ _ hnone =>
        exact absurd (hold.symm.trans hnone) nofun
      | wake _ hpc | adopt _ hpc | lost hpc | addedPost _ hpc | addedLost _ hpc
      | addedLate _ _ _ _ _ hpc | deleted hpc | putOld hpc | finish hpc =>
        simp [hpc, WorkPc.beforeRead] at hbefore

/-- While nobody is left in the mm, somebody goes on to read `mm_users` until one worker has seen
that it is alone. -/
lemma Inv.yetToRead_step (h : s.Inv) (hi : s.InstsOk) (hstep : s.step a = some s')
    (hcarry : s.carriesOver m a = true) (hsees : s.SeesOthers m a) (hin : ¬ s.TaskIn m)
    {k : Reader} (hk : s.YetToRead m k) :
    (∃ k, s'.YetToRead m k) ∨ ∃ b, s'.Deletes m b := by
  cases k with
  | exec x =>
    obtain ⟨⟨t, th, ht, hsys⟩, hx⟩ := hk
    by_cases ha : ∃ act, a = .task t act
    · obtain ⟨act, rfl⟩ := ha
      exact .inl (yetToRead_of_task hstep hcarry hin ht hsys hx)
    · exact .inl ⟨_, h.yetToRead_exec hi hstep ht hsys hx fun act heq => ha ⟨act, heq⟩⟩
  | req b =>
    by_cases ha : ∃ w, a = .work b w
    · obtain ⟨w, rfl⟩ := ha
      rcases yetToRead_of_work hstep hcarry hk with hk | hdel | ⟨rfl, r, hr, hleaves, hpc⟩
      · exact .inl ⟨_, hk⟩
      · exact .inr ⟨b, hdel⟩
      · -- the entry is kept on account of another reader
        rcases hsees r hr hleaves hpc with huse | ⟨k, hne, hk⟩
        · exact absurd (h.inUse_iff.mp huse) hin
        · cases k with
          | exec x =>
            obtain ⟨⟨t, th, ht, hsys⟩, hx⟩ := hk
            exact .inl ⟨_, h.yetToRead_exec hi hstep ht hsys hx nofun⟩
          | req c =>
            refine .inl ⟨_, h.yetToRead_req hstep hk fun w heq => ?_⟩
            cases heq
            exact hne rfl
    · exact .inl ⟨_, h.yetToRead_req hstep hk fun w heq => ha ⟨w, heq⟩⟩

/-- A worker that stands before `ac_del_prot_mm` goes on by calling it. -/
lemma Deletes.step (hd : s.Deletes m b) (h : s.Inv) (hstep : s.step a = some s') :
    s'.Deletes m b ∨ (s.reg.step (.delEnter m) = some s'.reg ∧ s'.h = s.h) := by
  obtain ⟨r, hr, hleaves, hpc, hcall⟩ := hd
  by_cases ha : ∃ w, a = .work b w
  · -- it cannot have returned from a call it has not made
    obtain ⟨w, rfl⟩ := ha
    cases rule_of_step hstep with
    | work _ _ q h' hq hreads hh =>
      cases hr.symm.trans hq
      cases Handoff.rule_of_step hh with
      | work _ q _ _ hq hw =>
        cases hr.symm.trans hq
        rcases hw.of_calling (by rw [hpc]; rfl) with ⟨ret, rfl⟩ | rfl
        all_goals simp [workReads, callReturned, hcall] at hreads
  · obtain ⟨r', hr', hkept⟩ := h.req_of_step hstep hr fun w heq => ha ⟨w, heq⟩
    have hdel : s'.call b = none → s'.Deletes m b := fun hcall' =>
      ⟨r', hr', by rwa [AcProtAddReq.leaves, hkept.oldMm], hkept.pc.trans hpc, hcall'⟩
    cases workEffect_of_step hstep with
    | quiet hh hcall' => exact .inl (hdel (hcall' ▸ hcall))
    | handler act hh hact hcur hreg hcall' => exact .inl (hdel (hcall' ▸ hcall))
    | work c w q hq hreads hw hh hreg hcall' =>
      refine .inl (hdel ?_)
      have hbc : b ≠ c := fun heq => ha ⟨w, heq ▸ rfl⟩
      rw [hcall', Function.update_of_ne hbc, hcall]
    | call c q act hq hnone hact hreg hh hcall' =>
      by_cases hbc : b = c
      · subst hbc
        cases hr.symm.trans hq
        obtain ⟨old, hold, rfl⟩ := AcProtAddReq.leaves_iff.mp hleaves
        have hact' : act = .delEnter old.mm := by
          simpa [AcProtAddReq.call, hpc, hold] using hact.symm
        exact .inr ⟨hact' ▸ hreg, hh⟩
      · refine .inl (hdel ?_)
        rw [hcall', Function.update_of_ne hbc, hcall]

/-! ### Execs that begin -/

/-- What holds in every state. -/
structure Regular (s : Inherit) : Prop where
  inv : s.Inv
  registered : ∀ k, s.h.registered k = true
  tasks : s.TasksOk
  insts : s.InstsOk

lemma Regular.init : Inherit.init.Regular := ⟨.init, fun _ => rfl, .init, .init⟩

lemma Regular.step (h : s.Regular) (hstep : s.step a = some s') : s'.Regular where
  inv := h.inv.step hstep
  registered := by
    rw [registered_of_step hstep]
    exact h.registered
  tasks := h.tasks.step h.inv hstep
  insts := h.insts.step hstep

lemma afterExec_ne_exec (dying : Bool) {x : Option InstId} {pc : ExecPc} :
    afterExec dying ≠ .exec x pc := by
  cases dying <;> nofun

/-- How a task comes to be in an exec that it has not completed. -/
lemma exec_of_step {t : ℕ} {act : TaskAct} {th' : Thread} {x : Option InstId} {pc : ExecPc}
    (h : s.Inv) (hstep : s.step (.task t act) = some s') (ht' : s'.tasks t = some th')
    (hsys' : th'.sys = .exec x pc) (hpc : pc = .entry ∨ pc = .inside) :
    ∃ th, s.tasks t = some th ∧ th.mm = th'.mm ∧
      ((th.sys = .exec x pc ∧ s'.h = s.h) ∨ (x = none ∧ act = .execEntry none) ∨
        s.protects th.mm = false ∨
        ∃ y, x = some y ∧ (s'.h.pinsOld th.mm y = true ∨
          (th.sys = .exec x .entry ∧ s.h.execs y = some .scanning))) := by
  have hset : ∀ (h' : Handoff) {th : Thread} {sys : Sys},
      ({ s with h := h' }.setSys t th sys).tasks t = some th' →
      th.mm = th'.mm ∧ sys = .exec x pc := by
    intro h' th sys hth
    obtain rfl : { th with sys := sys } = th' := by simpa [setSys, setTask] using hth
    exact ⟨rfl, hsys'⟩
  have hother : ∀ (h' : Handoff) {th : Thread} {sys : Sys},
      ({ s with h := h' }.setSys t th sys).tasks t = some th' → sys ≠ .exec x pc → False :=
    fun h' _ _ hth hne => hne (hset h' hth).2
  cases rule_of_step hstep with
  | root _ th ht hprot =>
    obtain ⟨th₁, ht₁, rfl⟩ := Option.map_eq_some_iff.mp ht'
    exact ⟨th₁, ht₁, rfl, .inl ⟨hsys', rfl⟩⟩
  | pinForeign _ th ht => exact ⟨th', ht', rfl, .inl ⟨hsys', rfl⟩⟩
  | addProc _ th jit reg' ht hreg => exact ⟨th', ht', rfl, .inl ⟨hsys', rfl⟩⟩
  | execMissed _ th ht hsys =>
    obtain ⟨hmm, hexec⟩ := hset s.h ht'
    cases hexec
    exact ⟨th, ht, hmm, .inr (.inl ⟨rfl, rfl⟩)⟩
  | execMiss _ th y h' ht hsys hprot hh =>
    exact ⟨th, ht, (hset h' ht').1, .inr (.inr (.inl hprot))⟩
  | execPin _ th y h' ht hsys hprot hh =>
    obtain ⟨hmm, hexec⟩ := hset h' ht'
    cases hexec
    refine ⟨th, ht, hmm, .inr (.inr (.inr ⟨y, rfl, .inl (Handoff.pinsOld_iff.mpr ?_)⟩))⟩
    cases Handoff.rule_of_step hh with
    | pin _ _ _ _ i hreg hx hi => exact ⟨_, _, Function.update_self _ _ _, rfl⟩
    | pinUntracked _ _ _ _ hreg hx hi => exact ⟨_, _, Function.update_self _ _ _, rfl⟩
  | execScan _ th y h' ht hsys hh =>
    obtain ⟨hmm, hexec⟩ := hset h' ht'
    cases hexec
    refine ⟨th, ht, hmm, .inr (.inr (.inr ⟨y, rfl, .inr ⟨hsys, ?_⟩⟩))⟩
    cases Handoff.rule_of_step hh with
    | scanPlain _ _ _ hx => exact hx
    | scanClaim _ _ _ _ _ hx => exact hx
  | fork _ th pid kind probed ht hsys hpid =>
    have hne := (h.tasks t th ht).1.ne
    have hparent :
        (s.setSys t th (if probed then .clone pid .body else .user)).tasks t = some th' :=
      (Function.update_of_ne hne _ _).symm.trans ht'
    refine (hother s.h hparent ?_).elim
    cases probed <;> nofun
  | execMmap _ th y comm ht hsys halone =>
    simp only [Inherit.execMmap, setTask, Function.update_self, Option.some.injEq] at ht'
    subst ht'
    cases hsys'
    cases hpc <;> contradiction
  | exit _ th ht hsys => simp [setTask] at ht'
  | execRet _ th y mapped rc addr h' ht hsys hrc hh hx =>
    exact (hother h' ht' (afterExec_ne_exec _)).elim
  | execGone _ th y mapped rc addr h' ht hsys hrc hh hx =>
    refine (hother h' ht' ?_).elim
    rintro ⟨⟩
    cases hpc <;> contradiction
  | execDone _ th mapped rc addr ht hsys =>
    exact (hother s.h ht' (afterExec_ne_exec _)).elim
  | execRequeue _ th y mapped dying addr h' ht hsys hh =>
    exact (hother h' ht' (afterExec_ne_exec _)).elim
  | cloneSame _ th child u y c h' ht hsys hu hmm hh => exact (hother h' ht' nofun).elim
  | cloneGet _ th child u y c h' ht hsys hu hmm hh => exact (hother h' ht' nofun).elim
  | cloneSchedule _ th child y addr h' ht hsys hh => exact (hother h' ht' nofun).elim
  | _ => exact (hother s.h ht' nofun).elim

/-- After a step a task is one that was there, or it has just been created. -/
lemma task_of_step (hstep : s.step a = some s') :
    ∀ u uh', s'.tasks u = some uh' → (∃ uh, s.tasks u = some uh) ∨ uh'.sys = .user := by
  have hsame : ∀ u uh, s.tasks u = some uh → (∃ vh, s.tasks u = some vh) ∨ uh.sys = .user :=
    fun u uh hu => .inl ⟨uh, hu⟩
  cases taskEffect_of_step hstep with
  | quiet htasks hnext hmm hexecs hclones => exact htasks ▸ hsame
  | acts t th sys h' hacts heq =>
    subst heq
    exact PartialMap.forall_update (fun u uh _ => hsame u uh) fun _ _ => .inl ⟨th, hacts.task⟩
  | fork t th pid kind probed ht hsys hpid heq =>
    subst heq
    exact forall_fork (.inr rfl) (.inl ⟨th, ht⟩) fun u uh _ => hsame u uh
  | execMmap t th x comm ht hsys halone heq =>
    subst heq
    exact PartialMap.forall_update (fun u uh _ => hsame u uh) fun _ _ => .inl ⟨th, ht⟩
  | exit t th ht hsys heq =>
    subst heq
    exact PartialMap.forall_update (fun u uh _ => hsame u uh) nofun
  | root t th ht hprot heq =>
    subst heq
    intro u uh' hu'
    obtain ⟨uh, hu, -⟩ := Option.map_eq_some_iff.mp hu'
    exact .inl ⟨uh, hu⟩

lemma Pinned.step (hs : s.Pinned m) (h : s.Regular) (hprot : s.protects m = true)
    (hcarry : s.carriesOver m a = true) (hstep : s.step a = some s') : s'.Pinned m := by
  intro t th' x pc ht' hmm' hsys' hpc
  by_cases ha : ∃ act, a = .task t act
  · obtain ⟨act, rfl⟩ := ha
    obtain ⟨th, ht, hmm, hcase⟩ := exec_of_step h.inv hstep ht' hsys' hpc
    have hm : th.mm = m := hmm.trans hmm'
    rcases hcase with ⟨hsys, hh⟩ | ⟨rfl, rfl⟩ | hfree | ⟨y, rfl, hpins | ⟨hsys, hscan⟩⟩
    · rw [hh]
      exact hs t th x pc ht hm hsys hpc
    · simp [carriesOver, ht, hm] at hcarry
    · rw [hm, hprot] at hfree
      cases hfree
    · exact ⟨y, rfl, hm ▸ hpins⟩
    · -- an exec that holds the mm does not scan
      obtain ⟨z, hz, hpins⟩ := hs t th _ _ ht hm hsys (.inl rfl)
      cases hz
      simp [Handoff.pinsOld, hscan] at hpins
  · rcases task_of_step hstep t th' ht' with ⟨th, ht⟩ | huser
    · obtain ⟨⟨tree, ht₁, -⟩, -, hexecs⟩ :=
        others_of_step h.inv h.insts hstep ht fun act heq => ha ⟨act, heq⟩
      cases ht₁.symm.trans ht'
      obtain ⟨y, rfl, hpins⟩ := hs t th x pc ht hmm' hsys' hpc
      refine ⟨y, rfl, ?_⟩
      rwa [Handoff.pinsOld, hexecs y (by rw [show th.sys = _ from hsys']; rfl)]
    · cases huser.symm.trans hsys'

end Inherit

end Anticheat
