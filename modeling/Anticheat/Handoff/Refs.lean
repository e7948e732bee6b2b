import Anticheat.Handoff.Invariant
import Anticheat.Lib.Ledger

/-!
# References on address spaces

Where each `mm_users` reference is at any time: in the pin table, with an exec or clone handler,
in a field of a request, or with the worker. The handlers and the worker take, move and drop
references as `Ledger.Accounted` asks, so each is dropped once.
-/

namespace Anticheat

open Transition Ledger

/-- The places in a request that hold a reference; `worker` is the local variable `post`. -/
inductive ReqField where
  | mm
  | oldMm
  | postMm
  | worker
  deriving DecidableEq, Repr

inductive Holder where
  | pin (i : PinSlot)
  | exec (x : InstId)
  | clone (y : CloneId)
  | req (a : ℕ) (f : ReqField)
  deriving DecidableEq, Repr

/-- The references a request answers for. -/
def AcProtAddReq.held (r : AcProtAddReq) : ReqField → Option Ref
  | .mm => some r.mm
  | .oldMm => if r.pc = .putMm then none else r.oldMm
  | .postMm => r.postMm
  | .worker =>
    match r.pc with
    | .consumed post => post
    | .addLate _ post _ _ => some post
    | _ => none

/-- The reference an exec instance answers for. A pinned mm is the pin table's, if tracked. -/
def ExecInst.held : ExecInst → Option Ref
  | .pinned old none => some old
  | .requeue _ mm _ _ => some mm
  | _ => none

def Handoff.held (s : Handoff) : Holder → Option Ref
  | .pin i => s.pins i
  | .exec x => (s.execs x).bind ExecInst.held
  | .clone y => (s.clones y).map CloneInst.childMm
  | .req a f => (s.reqs a).bind fun r => r.held f

/-- Every reference taken is held at one place or was dropped once. -/
def Handoff.RefsOk (s : Handoff) : Prop := Accounted Ref.id Ref.mm s.held s.taken s.dropped

namespace Handoff.RefsOk

variable {s s' : Handoff} {a : ℕ} {r r' : AcProtAddReq}

lemma init : Handoff.init.RefsOk := by
  refine Accounted.congr .empty ?_
  rintro (i | x | y | ⟨a, f⟩) <;> rfl

lemma congr (h : s.RefsOk) (hheld : ∀ p, s'.held p = s.held p) (htaken : s'.taken = s.taken)
    (hdropped : s'.dropped = s.dropped) : s'.RefsOk := by
  unfold Handoff.RefsOk
  rw [htaken, hdropped]
  exact Accounted.congr h hheld

/-! ### Changes at one place -/

lemma held_setExec_of_ne {x : InstId} {o : Option ExecInst} {p : Holder} (hp : p ≠ .exec x) :
    (s.setExec x o).held p = s.held p := by
  cases p with
  | exec y =>
    have hy : y ≠ x := fun heq => hp (heq ▸ rfl)
    simp [Handoff.held, Handoff.setExec, hy]
  | _ => rfl

lemma held_setClone_of_ne {y : CloneId} {o : Option CloneInst} {p : Holder} (hp : p ≠ .clone y) :
    (s.setClone y o).held p = s.held p := by
  cases p with
  | clone z =>
    have hz : z ≠ y := fun heq => hp (heq ▸ rfl)
    simp [Handoff.held, Handoff.setClone, hz]
  | _ => rfl

lemma held_setPin_of_ne {i : PinSlot} {o : Option Ref} {p : Holder} (hp : p ≠ .pin i) :
    (s.setPin i o).held p = s.held p := by
  cases p with
  | pin j =>
    have hj : j ≠ i := fun heq => hp (heq ▸ rfl)
    simp [Handoff.held, Handoff.setPin, hj]
  | _ => rfl

/-- A change of a request is seen at the fields that change. -/
lemma held_setReq_of_eq (hr : s.reqs a = some r) {p : Holder}
    (hp : ∀ f, p = .req a f → r'.held f = r.held f) :
    (s.setReq a (some r')).held p = s.held p := by
  cases p with
  | req b f =>
    by_cases hb : b = a
    · subst hb
      simpa [Handoff.held, Handoff.setReq, hr] using hp f rfl
    · simp [Handoff.held, Handoff.setReq, hb]
  | _ => rfl

/-- A new or freed request is seen at its own fields. -/
lemma held_setReq_of_ne {o : Option AcProtAddReq} {p : Holder} (hp : ∀ f, p ≠ .req a f) :
    (s.setReq a o).held p = s.held p := by
  cases p with
  | req b f =>
    have hb : b ≠ a := fun heq => hp f (heq ▸ rfl)
    simp [Handoff.held, Handoff.setReq, hb]
  | _ => rfl

@[simp] lemma held_setReq (f : ReqField) {o : Option AcProtAddReq} :
    (s.setReq a o).held (.req a f) = o.bind fun r => r.held f := by
  simp [Handoff.held, Handoff.setReq]

lemma held_of_reqs (hr : s.reqs a = some r) (f : ReqField) : s.held (.req a f) = r.held f := by
  simp [Handoff.held, hr]

/-- Only the places that hold references matter, and the counts. -/
lemma of_held {t : Handoff} (hpins : s.pins = t.pins) (hexecs : s.execs = t.execs)
    (hclones : s.clones = t.clones) (hreqs : s.reqs = t.reqs)
    (h : Accounted Ref.id Ref.mm t.held s.taken s.dropped) : s.RefsOk := by
  refine Accounted.congr h fun p => ?_
  cases p with
  | pin i => exact congrFun hpins i
  | exec x => simp only [Handoff.held, hexecs]
  | clone y => simp only [Handoff.held, hclones]
  | req a f => simp only [Handoff.held, hreqs]

/-! ### The worker -/

/-- A step of the worker that changes nothing the request holds. -/
lemma setReq (h : s.RefsOk) (hr : s.reqs a = some r) (hheld : ∀ f, r'.held f = r.held f) :
    (s.setReq a (some r')).RefsOk :=
  h.congr (fun _ => held_setReq_of_eq hr fun f _ => hheld f) rfl rfl

/-- The worker drops what a field of the request holds. -/
lemma putField (h : s.RefsOk) (hr : s.reqs a = some r) {f : ReqField} {t : Ref}
    (hf : r.held f = some t) (hf' : r'.held f = none)
    (hheld : ∀ g, g ≠ f → r'.held g = r.held g) : ((s.setReq a (some r')).put t).RefsOk := by
  refine Accounted.drop (p := Holder.req a f) h ((held_of_reqs hr f).trans hf) ?_ fun p hp => ?_
  · exact (held_setReq f).trans hf'
  · exact held_setReq_of_eq hr fun g hg => hheld g fun heq => hp (heq ▸ hg)

/-- The worker moves what a field of the request holds to another. -/
lemma moveField (h : s.RefsOk) (hr : s.reqs a = some r) {f g : ReqField} {t : Ref}
    (hf : r.held f = some t) (hg : r.held g = none) (hf' : r'.held f = none)
    (hg' : r'.held g = some t) (hheld : ∀ k, k ≠ f → k ≠ g → r'.held k = r.held k) :
    (s.setReq a (some r')).RefsOk := by
  refine Accounted.move (p := Holder.req a f) (q := Holder.req a g) (t := t) h ?_ ?_ ?_ ?_
    fun p hpf hpg => ?_
  · exact (held_of_reqs hr f).trans hf
  · exact (held_of_reqs hr g).trans hg
  · exact (held_setReq f).trans hf'
  · exact (held_setReq g).trans hg'
  · refine held_setReq_of_eq hr fun k hk => hheld k ?_ ?_
    · exact fun heq => hpf (heq ▸ hk)
    · exact fun heq => hpg (heq ▸ hk)

/-- A change of the program counter between points where the worker has nothing in hand. -/
lemma held_pc {pc : WorkPc} (hold : r.pc = .putMm ∨ pc = .putMm → r.oldMm = none)
    (hw : ({ r with pc := pc } : AcProtAddReq).held .worker = r.held .worker) (f : ReqField) :
    ({ r with pc := pc } : AcProtAddReq).held f = r.held f := by
  cases f with
  | oldMm =>
    simp only [AcProtAddReq.held]
    split_ifs with hput hput' hput'
    · rfl
    · exact (hold (.inr hput)).symm
    · exact hold (.inl hput')
    · rfl
  | worker => exact hw
  | _ => rfl

theorem work {w : WorkAct} (h : s.RefsOk) (hlink : s.Linked) (hr : s.reqs a = some r)
    (hw : WorkRule s a r w s') : s'.RefsOk := by
  have hok := hlink.ok a r hr
  have hkind := hok.kind
  -- a branch that only moves on
  have hmove : ∀ {pc : WorkPc}, (r.pc = .putMm ∨ pc = .putMm → r.oldMm = none) →
      ({ r with pc := pc } : AcProtAddReq).held .worker = r.held .worker →
      (s.setReq a (some { r with pc := pc })).RefsOk :=
    fun hold hworker => h.setReq hr (held_pc hold hworker)
  cases hw with
  | wait hpc hold hclaimed => exact hmove (by simp [hpc]) (by simp [AcProtAddReq.held, hpc])
  | addMm hpc hfree => exact hmove (by simp [hpc]) (by simp [AcProtAddReq.held, hpc])
  | wake timedOut hpc hdone =>
    cases hpost : r.postMm with
    | none =>
      refine h.setReq hr fun f => ?_
      cases f <;> simp [AcProtAddReq.held, hpc, hpost]
    | some p =>
      refine h.moveField hr (f := .postMm) (g := .worker) (t := p) hpost ?_ ?_ ?_ ?_
      · simp [AcProtAddReq.held, hpc]
      · simp [AcProtAddReq.held]
      · simp [AcProtAddReq.held, hpost]
      · intro k hkpost hkworker
        cases k <;> simp_all [AcProtAddReq.held]
  | adopt p hpc =>
    have hput : Accounted Ref.id Ref.mm (Function.update s.held (.req a .mm) none) s.taken
        (s.dropped ++ [r.mm.id]) :=
      Accounted.drop h (held_of_reqs hr .mm) (Function.update_self ..)
        fun q hq => Function.update_of_ne hq ..
    refine hput.move (p := Holder.req a .worker) (q := Holder.req a .mm) (t := p) ?_ ?_ ?_ ?_ ?_
    · rw [Function.update_of_ne (by simp), held_of_reqs hr]
      simp [AcProtAddReq.held, hpc]
    · exact Function.update_self ..
    · exact held_setReq .worker
    · exact held_setReq .mm
    · intro q hqw hqm
      rw [Function.update_of_ne hqm]
      refine held_setReq_of_eq hr fun f hf => ?_
      cases f <;> simp_all [AcProtAddReq.held]
  | lost hpc => exact hmove (by simp [hpc]) (by simp [AcProtAddReq.held, hpc])
  | addedPost ret hpc =>
    rw [AcProtAddReq.KindOk, hpc] at hkind
    exact hmove (fun _ => hkind) (by simp [AcProtAddReq.held, hpc])
  | addedLost ret hpc =>
    rw [AcProtAddReq.KindOk, hpc] at hkind
    exact hmove (fun _ => hkind) (by simp [AcProtAddReq.held, hpc])
  | addedMm ret hpc => exact hmove (by simp [hpc]) (by simp [AcProtAddReq.held, hpc])
  | addedLate ret ret₁ post pid comm hpc =>
    rw [AcProtAddReq.KindOk, hpc] at hkind
    refine h.putField hr (f := .worker) ?_ ?_ ?_
    · simp [AcProtAddReq.held, hpc]
    · simp [AcProtAddReq.held]
    · intro g hg
      cases g <;> simp_all [AcProtAddReq.held]
  | unlinkNone ret hpc hold hpost =>
    exact hmove (fun _ => hold) (by simp [AcProtAddReq.held, hpc])
  | unlinkSame ret p hpc hold hpost hmm =>
    refine h.putField hr (f := .postMm) hpost ?_ ?_
    · simp [AcProtAddReq.held]
    · intro g hg
      cases g <;> simp_all [AcProtAddReq.held]
  | unlinkLate ret p hpc hold hpost hmm =>
    refine h.moveField hr (f := .postMm) (g := .worker) (t := p) hpost ?_ ?_ ?_ ?_
    · simp [AcProtAddReq.held, hpc]
    · simp [AcProtAddReq.held]
    · simp [AcProtAddReq.held]
    · intro k hkpost hkworker
      cases k <;> simp_all [AcProtAddReq.held]
  | keep old hpc hold => exact hmove (by simp [hpc]) (by simp [AcProtAddReq.held, hpc])
  | delete old hpc hold => exact hmove (by simp [hpc]) (by simp [AcProtAddReq.held, hpc])
  | rekeyFail ret old shared hpc hold hret =>
    exact hmove (by simp [hpc]) (by simp [AcProtAddReq.held, hpc])
  | deleted hpc => exact hmove (by simp [hpc]) (by simp [AcProtAddReq.held, hpc])
  | putOld hpc =>
    rw [AcProtAddReq.KindOk, hpc] at hkind
    obtain ⟨old, hold⟩ := Option.ne_none_iff_exists'.mp hkind
    rw [hold]
    refine h.putField hr (f := .oldMm) ?_ ?_ ?_
    · simp [AcProtAddReq.held, hpc, hold]
    · simp [AcProtAddReq.held]
    · intro g hg
      cases g <;> simp_all [AcProtAddReq.held]
  | finish hpc =>
    have hpost : r.postMm = none := hok.postMm_eq_none (by rw [hpc]; rfl)
    show Accounted _ _ (s.setReq a none).held s.taken (s.dropped ++ [r.mm.id])
    refine Accounted.drop (p := Holder.req a .mm) h (held_of_reqs hr .mm) (held_setReq .mm) ?_
    intro q hq
    by_cases hqa : ∃ f, q = .req a f
    · obtain ⟨f, rfl⟩ := hqa
      refine (held_setReq f).trans ((held_of_reqs hr f).trans ?_).symm
      cases f <;> simp_all [AcProtAddReq.held]
    · exact held_setReq_of_ne fun f hf => hqa ⟨f, hf⟩

/-! ### The handlers -/

/-- A step of an exec instance that holds nothing, before and after. -/
lemma setExec {x : InstId} {o : Option ExecInst} (h : s.RefsOk) (hx : s.held (.exec x) = none)
    (ho : o.bind ExecInst.held = none) : (s.setExec x o).RefsOk := by
  refine h.congr (fun p => ?_) rfl rfl
  by_cases hp : p = .exec x
  · subst hp
    rw [hx]
    simpa [Handoff.held, Handoff.setExec] using ho
  · exact held_setExec_of_ne hp

/-- `ac_exec_ret` hands a pinned mm over or drops it. -/
lemma held_untrack {x : InstId} {i : PinSlot} {p : Holder} (hx : s.held (.exec x) = none)
    (hp : p ≠ .pin i) :
    ((s.pinUntrack (some i)).setExec x none).held p = s.held p := by
  by_cases hpx : p = .exec x
  · subst hpx
    rw [hx]
    simp [Handoff.held, Handoff.setExec]
  · exact (held_setExec_of_ne hpx).trans (held_setPin_of_ne (o := none) hp)

/-- A reference moves from its holder into a fork-inherit request that is being queued. `t` is the
state without it. -/
lemma enqueue {p : Holder} {t : Handoff} (h : s.RefsOk) (ha : s.reqs a = none)
    (hpa : ∀ f, p ≠ .req a f) (hp : s.held p = some r.mm) (htp : t.held p = none)
    (hne : ∀ q, q ≠ p → t.held q = s.held q) (hold : r.oldMm = none) (hpost : r.postMm = none)
    (hpc : r.pc = .queued) :
    Accounted Ref.id Ref.mm (t.setReq a (some r)).held s.taken s.dropped := by
  have hnone : ∀ f, s.held (.req a f) = none := fun f => by simp [Handoff.held, ha]
  refine Accounted.move (p := p) (q := Holder.req a .mm) (t := r.mm) h hp (hnone .mm) ?_ ?_ ?_
  · exact (held_setReq_of_ne hpa).trans htp
  · exact held_setReq .mm
  · intro q hqp hqa
    by_cases hq : ∃ f, q = .req a f
    · obtain ⟨f, rfl⟩ := hq
      rw [hnone f, held_setReq f]
      cases f <;> simp_all [AcProtAddReq.held]
    · exact (held_setReq_of_ne fun f hf => hq ⟨f, hf⟩).trans (hne q hqp)

/-- A pinned mm and a new reference move into a rekey request that is being queued. -/
lemma enqueueRekey {i : PinSlot} {t : Handoff} {old : Ref} {m : ℕ} (h : s.RefsOk)
    (ha : s.reqs a = none) (hi : s.held (.pin i) = some old) (hti : t.held (.pin i) = none)
    (hne : ∀ q, q ≠ .pin i → t.held q = s.held q) (hmm : r.mm = s.nextRef m)
    (hold : r.oldMm = some old) (hpost : r.postMm = none) (hpc : r.pc = .queued) :
    Accounted Ref.id Ref.mm (t.setReq a (some r)).held (s.taken ++ [m]) s.dropped := by
  have hnone : ∀ f, s.held (.req a f) = none := fun f => by simp [Handoff.held, ha]
  have hmove : Accounted Ref.id Ref.mm (Function.update t.held (.req a .oldMm) (some old)) s.taken
      s.dropped := by
    refine Accounted.move (p := Holder.pin i) (q := Holder.req a .oldMm) (t := old) h hi
      (hnone _) ?_ ?_ ?_
    · rw [Function.update_of_ne (by simp)]
      exact hti
    · exact Function.update_self ..
    · intro q hqi hqa
      rw [Function.update_of_ne hqa]
      exact hne q hqi
  have hother : ∀ f, t.held (.req a f) = none := fun f => (hne _ (by simp)).trans (hnone f)
  refine Accounted.take (p := Holder.req a .mm) (t := s.nextRef m) hmove ?_ ?_ rfl ?_
  · rw [Function.update_of_ne (by simp)]
    exact hother .mm
  · rw [held_setReq, ← hmm]
    rfl
  · intro q hqa
    by_cases hq : ∃ f, q = .req a f
    · obtain ⟨f, rfl⟩ := hq
      rw [held_setReq f]
      cases f <;> simp_all [AcProtAddReq.held]
    · have hq' : ∀ f, q ≠ .req a f := fun f hf => hq ⟨f, hf⟩
      rw [Function.update_of_ne (hq' _)]
      exact held_setReq_of_ne hq'

/-- A handler takes a reference and drops it again. `p` is any place that is empty. -/
lemma get_put {p : Holder} {dropped : List ℕ} {held : Holder → Option Ref} (m : ℕ)
    (h : Accounted Ref.id Ref.mm held s.taken dropped) (hp : held p = none) :
    Accounted Ref.id Ref.mm held (s.taken ++ [m]) (dropped ++ [(s.nextRef m).id]) := by
  have htake := h.take (p := p) (t := s.nextRef m) hp (Function.update_self ..) rfl
    fun q hq => Function.update_of_ne hq ..
  exact htake.drop (p := p) (Function.update_self ..) hp
    fun q hq => (Function.update_of_ne hq ..).symm

/-- `ac_exec_pin_track` -/
lemma track {x : InstId} {i : PinSlot} (h : s.RefsOk) (m : ℕ) (hx : s.execs x = none)
    (hi : s.pins i = none) :
    Accounted Ref.id Ref.mm ((s.setExec x (some (.pinned (s.nextRef m) (some i)))).setPin i
      (some (s.nextRef m))).held (s.taken ++ [m]) s.dropped := by
  refine Accounted.take (p := Holder.pin i) (t := s.nextRef m) h hi ?_ rfl fun q hq => ?_
  · exact Function.update_self ..
  · rw [held_setPin_of_ne hq]
    by_cases hqx : q = .exec x
    · subst hqx
      simp [Handoff.held, Handoff.setExec, ExecInst.held, hx]
    · exact held_setExec_of_ne hqx

/-- `ac_exec_ret` posts a new reference, dropping the one it supersedes. -/
lemma post {x : InstId} {m : ℕ} {o : Option ExecInst} (h : s.RefsOk) (hr : s.reqs a = some r)
    (hx : s.held (.exec x) = none) (ho : o.bind ExecInst.held = none)
    (hpost : r'.postMm = some (s.nextRef m))
    (hheld : ∀ f, f ≠ .postMm → r'.held f = r.held f) :
    Accounted Ref.id Ref.mm ((s.setReq a (some r')).setExec x o).held (s.taken ++ [m])
      (s.putOpt r.postMm).dropped := by
  have hput : Accounted Ref.id Ref.mm (Function.update s.held (.req a .postMm) none) s.taken
      (s.putOpt r.postMm).dropped := by
    have hfield : s.held (.req a .postMm) = r.postMm := held_of_reqs hr .postMm
    cases hp : r.postMm with
    | none => exact Accounted.congr h fun q => by rw [← hp, ← hfield, Function.update_eq_self]
    | some p =>
      exact Accounted.drop h (hfield.trans hp) (Function.update_self ..)
        fun q hq => Function.update_of_ne hq ..
  refine hput.take (p := Holder.req a .postMm) (t := s.nextRef m) (Function.update_self ..) ?_
    rfl ?_
  · rw [held_setExec_of_ne (by simp), held_setReq]
    exact hpost
  · intro q hq
    rw [Function.update_of_ne hq]
    by_cases hqx : q = .exec x
    · subst hqx
      rw [hx]
      simpa [Handoff.held, Handoff.setExec] using ho
    · rw [held_setExec_of_ne hqx]
      exact held_setReq_of_eq hr fun f hf => hheld f fun heq => hq (heq ▸ hf)

theorem step {act : HandoffAct} (h : s.RefsOk) (hlink : s.Linked) (hpins : s.PinsOk)
    (hstep : s.step act = some s') : s'.RefsOk := by
  -- an exec instance that holds nothing itself
  have hempty : ∀ {x : InstId} {i : ExecInst}, s.execs x = some i → i.held = none →
      s.held (.exec x) = none := by
    intro x i hx hi
    simp [Handoff.held, hx, hi]
  -- and one whose pin is in the table
  have hpinned : ∀ {x : InstId} {old : Ref} {slot : Option PinSlot},
      s.registered x.1 = true → s.execs x = some (.pinned old slot) →
      ∃ i, slot = some i ∧ s.held (.pin i) = some old ∧ s.held (.exec x) = none := by
    intro x old slot hreg hx
    obtain ⟨i, rfl⟩ := Option.ne_none_iff_exists'.mp (hpins.tracked x old slot hx)
    exact ⟨i, rfl, (hpins.pinned x old i hx hreg).1, hempty hx rfl⟩
  cases rule_of_step hstep with
  | pin x m pid comm i hreg hx hi =>
    have hfree : s.pins i = none := by simpa using List.find?_some hi
    exact of_held (t := (s.setExec x (some (.pinned (s.nextRef m) (some i)))).setPin i
      (some (s.nextRef m))) rfl rfl rfl rfl (h.track m hx hfree)
  | pinUntracked x m pid comm hreg hx hi =>
    obtain ⟨i, hi', -⟩ := hpins.pinTrack_isSome hreg hx
    rw [hi] at hi'
    cases hi'
  | miss x hreg hx => exact h.setExec (by simp [Handoff.held, hx]) rfl
  | scanPlain x m tgid hx hnone => exact h.setExec (hempty hx rfl) rfl
  | scanClaim x m tgid a r hx ha hr hclaim =>
    have h' : (s.setReq a (some { r with claimed := true })).RefsOk :=
      h.setReq hr fun f => by cases f <;> rfl
    exact h'.setExec (hempty hx rfl) rfl
  | retPlain x rc m pid comm jit addr hreg hx => exact h.setExec (hempty hx rfl) rfl
  | retPost x rc m pid comm jit addr c r hreg hx ha hr hid =>
    refine h.post hr (hempty hx rfl) rfl rfl fun f hf => ?_
    cases f <;> first | rfl | exact absurd rfl hf
  | retGone x rc m pid comm jit addr c hreg hx =>
    refine Accounted.take (p := Holder.exec x) (t := s.nextRef m) h (hempty hx rfl) ?_ rfl ?_
    · simp [Handoff.held, Handoff.setExec, ExecInst.held]
    · intro q hq
      exact held_setExec_of_ne hq
  | retWake x rc pid comm jit addr c r hreg hx ha hr =>
    have h' : (s.setReq c.pendingReq (some { r with handoffDone := true })).RefsOk :=
      h.setReq hr fun f => by cases f <;> rfl
    exact h'.setExec (hempty hx rfl) rfl
  | retExiting x rc pid comm jit addr c hreg hx => exact h.setExec (hempty hx rfl) rfl
  | requeue x c mm pid comm a hx ha =>
    refine h.enqueue (p := Holder.exec x) (t := s.setExec x none) ha nofun ?_ ?_ ?_ rfl rfl rfl
    · simp [Handoff.held, hx, ExecInst.held, AcProtAddReq.make]
    · simp [Handoff.held, Handoff.setExec]
    · exact fun q hq => held_setExec_of_ne hq
  | requeueDropped x c mm pid comm hx =>
    show Accounted _ _ (s.setExec x none).held s.taken (s.dropped ++ [mm.id])
    refine Accounted.drop (p := Holder.exec x) h ?_ ?_ fun q hq => held_setExec_of_ne hq
    · simp [Handoff.held, hx, ExecInst.held]
    · simp [Handoff.held, Handoff.setExec]
  | rekeyFailed x rc m pid comm jit addr old slot hreg hx hfail =>
    obtain ⟨i, rfl, hi, hx⟩ := hpinned hreg hx
    refine Accounted.drop (p := Holder.pin i) h hi ?_ fun q hq => held_untrack hx hq
    exact Function.update_self ..
  | rekeySame x pid comm jit addr old slot hreg hx =>
    obtain ⟨i, rfl, hi, hx⟩ := hpinned hreg hx
    have hput : Accounted Ref.id Ref.mm ((s.pinUntrack (some i)).setExec x none).held s.taken
        (s.dropped ++ [old.id]) := by
      refine Accounted.drop (p := Holder.pin i) h hi ?_ fun q hq => held_untrack hx hq
      exact Function.update_self ..
    refine of_held (t := (s.pinUntrack (some i)).setExec x none) rfl rfl rfl rfl ?_
    refine get_put old.mm hput (p := Holder.exec x) ?_
    exact (held_untrack hx (by simp)).trans hx
  | rekey x m pid comm jit a old slot hreg hx hm ha =>
    obtain ⟨i, rfl, hi, hx⟩ := hpinned hreg hx
    refine h.enqueueRekey (t := (s.pinUntrack (some i)).setExec x none) ha hi ?_ ?_ rfl rfl rfl rfl
    · exact Function.update_self ..
    · exact fun q hq => held_untrack hx hq
  | rekeyDropped x m pid comm jit old slot hreg hx hm =>
    obtain ⟨i, rfl, hi, hx⟩ := hpinned hreg hx
    have hput := get_put (s := s) m h hx
    refine of_held (t := (s.pinUntrack (some i)).setExec x none) rfl rfl rfl rfl ?_
    refine hput.drop (p := Holder.pin i) hi ?_ fun q hq => held_untrack hx hq
    exact Function.update_self ..
  | discard x i hreg hx hi =>
    refine h.setExec (hempty hx ?_) rfl
    cases i with
    | pinned old slot =>
      obtain ⟨j, rfl⟩ := Option.ne_none_iff_exists'.mp (hpins.tracked x old slot hx)
      rfl
    | requeue => cases hi
    | _ => rfl
  | unregister k => exact h.congr (fun p => by cases p <;> rfl) rfl rfl
  | dropPin i hi hreg hidle =>
    show Accounted _ _ (s.setPin i none).held s.taken (s.putOpt (s.pins i)).dropped
    cases hp : s.pins i with
    | none =>
      refine Accounted.congr h fun q => ?_
      by_cases hq : q = .pin i
      · subst hq
        simp [Handoff.held, Handoff.setPin, hp]
      · exact held_setPin_of_ne hq
    | some old =>
      have hi : s.held (.pin i) = some old := hp
      refine Accounted.drop (p := Holder.pin i) h hi ?_ fun q hq => held_setPin_of_ne hq
      exact Function.update_self ..
  | cloneSame y m cpid ccomm hy =>
    have hnone : s.held (.clone y) = none := by simp [Handoff.held, hy]
    have hput := get_put m h hnone
    exact hput
  | cloneGet y m cur cpid ccomm hy hm =>
    refine Accounted.take (p := Holder.clone y) (t := s.nextRef m) h ?_ ?_ rfl ?_
    · simp [Handoff.held, hy]
    · simp [Handoff.held, Handoff.setClone]
    · exact fun q hq => held_setClone_of_ne hq
  | cloneSchedule y c ppid pcomm jit a hy ha =>
    refine h.enqueue (p := Holder.clone y) (t := s.setClone y none) ha nofun ?_ ?_ ?_ rfl rfl rfl
    · simp [Handoff.held, hy, AcProtAddReq.make]
    · simp [Handoff.held, Handoff.setClone]
    · exact fun q hq => held_setClone_of_ne hq
  | cloneDropped y c ppid pcomm jit hy =>
    show Accounted _ _ (s.setClone y none).held s.taken (s.dropped ++ [c.childMm.id])
    refine Accounted.drop (p := Holder.clone y) h ?_ ?_ fun q hq => held_setClone_of_ne hq
    · simp [Handoff.held, hy]
    · simp [Handoff.held, Handoff.setClone]
  | work a r w s' hr hw => exact h.work hlink hr hw

end Handoff.RefsOk

/-- What holds of every reachable state. -/
structure Handoff.Inv (s : Handoff) : Prop where
  linked : s.Linked
  pins : s.PinsOk
  refs : s.RefsOk

namespace Handoff.Inv

variable {s s' : Handoff} {act : HandoffAct} {acts : List HandoffAct}

lemma init : Handoff.init.Inv := ⟨.init, .init, .init⟩

lemma step (h : s.Inv) (hstep : s.step act = some s') : s'.Inv :=
  ⟨h.linked.step hstep, h.pins.step hstep, h.refs.step h.linked h.pins hstep⟩

theorem of_run (hrun : run Handoff.step Handoff.init acts = some s) : s.Inv :=
  run_invariant (fun _ _ _ h hstep => h.step hstep) init hrun

end Handoff.Inv

/-- No handler of the exec and clone probes is running or will still run, no work is queued, and
`ac_exec_pins_drop_all` has run if a probe was unregistered. -/
structure Handoff.Drained (s : Handoff) : Prop where
  execs : ∀ x i, s.execs x = some i → s.registered x.1 = false ∧ i.inHandler = false
  clones : ∀ y, s.clones y = none
  reqs : ∀ a, s.reqs a = none
  dropped : (∃ k, s.registered k = false) → s.dropNext = acExecPinMax

/-- Then no reference is held anywhere. -/
lemma Handoff.Inv.held_eq_none {s : Handoff} (h : s.Inv) (hd : s.Drained) (p : Holder) :
    s.held p = none := by
  cases p with
  | pin i =>
    by_contra hi
    by_cases hreg : s.registered (s.owner i).1 = true
    · -- the instance that pinned it is still there
      obtain ⟨old, hold⟩ := h.pins.owned i hi hreg
      exact Bool.false_ne_true ((hd.execs _ _ hold).1.symm.trans hreg)
    · have hnext := hd.dropped ⟨_, Bool.eq_false_of_not_eq_true hreg⟩
      exact hi (h.pins.emptied i (by rw [hnext]; exact i.isLt))
  | exec x =>
    cases hx : s.execs x with
    | none => simp [Handoff.held, hx]
    | some i =>
      have hidle := (hd.execs x i hx).2
      cases i with
      | pinned old slot =>
        obtain ⟨j, rfl⟩ := Option.ne_none_iff_exists'.mp (h.pins.tracked x old slot hx)
        simp [Handoff.held, hx, ExecInst.held]
      | requeue => cases hidle
      | _ => simp [Handoff.held, hx, ExecInst.held]
  | clone y => simp [Handoff.held, hd.clones y]
  | req a f => simp [Handoff.held, hd.reqs a]

/-- In every interleaving of the handlers, the worker and the unregistration of probes, no
reference is dropped twice, none is dropped that was not taken, and once everything has come to
rest each reference ever taken has been dropped. -/
theorem handoff_refs_balanced {acts : List HandoffAct} {s : Handoff}
    (hrun : run Handoff.step Handoff.init acts = some s) :
    s.dropped.Nodup ∧ (∀ k ∈ s.dropped, k < s.taken.length) ∧
      (s.Drained → s.dropped.Perm (List.range s.taken.length)) := by
  have h := Handoff.Inv.of_run hrun
  refine ⟨h.refs.nodup, fun k hk => ?_, fun hd => ?_⟩
  · exact (h.refs.cover k).mpr (.inl hk)
  · exact h.refs.perm_range (h.held_eq_none hd)

/-- A protected process execs; the rekey registers the new image and removes the old entry. -/
def rekeyRun : List HandoffAct :=
  [.entryPin (0, 0) 10 100 "game", .execRet (0, 0) 0 (some 11) 100 "game" false (some 0),
    .work 0 .start, .work 0 (.added 0), .work 0 (.users false), .work 0 .deleted,
    .work 0 .putOld, .work 0 .finish]

lemma rekeyRun_runs : (run Handoff.step Handoff.init rekeyRun).isSome = true := by
  decide +kernel

lemma rekeyRun_drained : ((run Handoff.step Handoff.init rekeyRun).get rekeyRun_runs).Drained where
  execs := by decide +kernel
  clones := by decide +kernel
  reqs a := by
    cases a with
    | zero => decide +kernel
    | succ n => rfl
  dropped := by decide +kernel

theorem handoff_refs_balanced_rekeyRun :
    ∃ s, run Handoff.step Handoff.init rekeyRun = some s ∧ s.Drained ∧ s.taken = [10, 11] ∧
      s.dropped.Perm (List.range s.taken.length) :=
  have hrun := (Option.some_get rekeyRun_runs).symm
  ⟨_, hrun, rekeyRun_drained, by decide +kernel,
    (handoff_refs_balanced hrun).2.2 rekeyRun_drained⟩

end Anticheat
