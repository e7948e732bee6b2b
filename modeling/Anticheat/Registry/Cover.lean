import Anticheat.Registry.Properties

/-!
# Entries that nobody removes

For callers of the registry: which address spaces it can mention, what becomes of the entries of
one that nobody deletes and that does not exit, and when such an entry is on its way.
-/

namespace Anticheat

open Transition

variable {M : Type}

namespace Registry

/-! ### The address spaces mentioned -/

/-- Every entry and every call is about an mm with the property. -/
structure Within (P : M → Prop) (s : Registry M) : Prop where
  slot : ∀ i m, (s.prots i).mm = .mm m → P m
  call : ∀ call ∈ s.calls, P call.mm

end Registry

/-- If the action is a call for an mm, it is one with the property. -/
def RegAct.About (P : M → Prop) : RegAct M → Prop
  | .addEnter m _ _ _ => P m
  | .delEnter m => P m
  | _ => True

namespace Registry

variable {s s' : Registry M} {owner : Slot → Owner M} {m : M} {i : Slot} {P Q : M → Prop}
variable {e : AcProtEntry M} {call : Call M} {pc : CallPc} {c : ℕ}

lemma Within.init : Within P (Registry.init (M := M)) := ⟨nofun, nofun⟩

lemma Within.mono (h : s.Within P) (hPQ : ∀ m, P m → Q m) : s.Within Q :=
  ⟨fun i m hmm => hPQ m (h.slot i m hmm), fun call hc => hPQ call.mm (h.call call hc)⟩

lemma Within.update (h : s.Within P) (hprots : s'.prots = Function.update s.prots i e)
    (he : ∀ m, e.mm = .mm m → P m) (hcalls : ∀ call ∈ s'.calls, P call.mm) :
    s'.Within P := by
  refine ⟨fun j m hmm => ?_, hcalls⟩
  rw [hprots] at hmm
  by_cases hji : j = i
  · subst hji
    rw [Function.update_self] at hmm
    exact he m hmm
  · rw [Function.update_of_ne hji] at hmm
    exact h.slot j m hmm

lemma Within.append (h : s.Within P) {kind : CallKind} (hm : P m) :
    ∀ call ∈ s.calls ++ [⟨m, kind, pc⟩], P call.mm := by
  intro call hmem
  rcases List.mem_append.mp hmem with hmem | hmem
  · exact h.call call hmem
  · rw [List.mem_singleton.mp hmem]
    exact hm

lemma Within.set (h : s.Within P) (hc : s.calls[c]? = some call) :
    ∀ call' ∈ s.calls.set c { call with pc := pc }, P call'.mm := by
  intro call' hmem
  rcases List.mem_or_eq_of_mem_set hmem with hmem | rfl
  · exact h.call call' hmem
  · exact h.call call (List.mem_of_getElem? hc)

variable [DecidableEq M] {a : RegAct M}

theorem Within.step (h : s.Within P) (ha : a.About P) (hstep : s.step a = some s') :
    s'.Within P := by
  have hslot := h.slot
  cases rule_of_step hstep with
  | addPublished m' pid comm jit i hmm hrem => exact h.update (i := i) rfl (hslot i) (h.append ha)
  | addJoined m' pid comm jit i hmm hclaim hcancel => exact ⟨hslot, h.append ha⟩
  | addFull m' pid comm jit hfull => exact ⟨hslot, h.append ha⟩
  | addClaim m' pid comm jit i hnone hfree => exact h.update (i := i) rfl (by simp) (h.append ha)
  | registerOk c call i hc hpc => exact ⟨hslot, h.set hc⟩
  | registerFail c call i ret hc hpc hret => exact ⟨hslot, h.set hc⟩
  | settleFail c call i ret hc hpc hret => exact h.update (i := i) rfl (by simp) (h.set hc)
  | settleCancel c call i hc hpc hcancel => exact h.update (i := i) rfl (by simp) (h.set hc)
  | settlePublish c call i pid comm jit hc hpc hkind hcancel =>
    refine h.update (i := i) rfl (fun m hmm => ?_) (h.set hc)
    cases hmm
    exact h.call call (List.mem_of_getElem? hc)
  | delFound m' i hmm hrem => exact h.update (i := i) rfl (hslot i) (h.append ha)
  | delNone m' hnone =>
    refine ⟨fun i m hmm => hslot i m ?_, h.append ha⟩
    simp only [newCall_prots, cancelClaims] at hmm
    split_ifs at hmm <;> exact hmm
  | clearFound m' i hmm hrem => exact h.update (i := i) rfl (hslot i) (h.append (hslot i m' hmm))
  | clearSkip i => exact h
  | unregBegin c call i m' hc hpc hn => exact ⟨hslot, h.call⟩
  | unregReturn c call i hc hpc hn => exact ⟨hslot, h.set hc⟩
  | finish c call i hc hpc => exact h.update (i := i) rfl (hslot i) (h.set hc)
  | exit m' hpin => exact ⟨hslot, h.call⟩
  | releaseCaller i m' hn hmm hrem => exact h.update (i := i) rfl (by simp) h.call
  | releaseOrganic i m' hn hmm hrem => exact h.update (i := i) rfl (by simp) h.call
  | releaseStale i m' hn hmm => exact ⟨hslot, h.call⟩
  | queueRelease i m' pid comm hn => exact h.update (i := i) rfl (hslot i) h.call
  | workUnregister i m' hw hm hn => exact ⟨hslot, h.call⟩
  | workFinish i hw => exact h.update (i := i) rfl (hslot i) h.call

/-! ### Entries that stay -/

/-- An entry was published before the step, or it is published by the call that holds its claim. -/
lemma Owned.mm_of_step (h : s.Owned owner) (hstep : s.step a = some s')
    (hmm : (s'.prots i).mm = .mm m) : (s.prots i).mm = .mm m ∨ s.ClaimAt i m := by
  have heff := entryStep_of_step hstep i
  generalize s'.prots i = e at hmm heff
  cases heff with
  | published c call pid comm jit hc hpc hkind hcancel =>
    cases hmm
    have hi := h.slot_of_call hc (i := i) (by rw [hpc]; rfl)
    rw [hpc] at hi
    cases hi with
    | registered _ _ _ hres hclaim _ _ _ => exact .inr ⟨hres, hclaim, hcancel⟩
  | claimed m' pid comm jit hfree => cases hmm
  | cleared a e hnull hjit => cases hnull.symm.trans hmm
  | same | refreshed | cancelled | marked => exact .inl hmm

/-- Nobody is removing an entry of the mm. -/
def Intact (s : Registry M) (m : M) : Prop := ∀ i, (s.prots i).mm = .mm m → s.LiveAt i m

omit [DecidableEq M] in
lemma Intact.notExiting (h : s.Intact m) : s.NotExiting m := fun i hmm _ => h i hmm

omit [DecidableEq M] in
lemma Within.intact (h : s.Within P) (hm : ¬ P m) : s.Intact m :=
  fun i hmm => absurd (h.slot i m hmm) hm

lemma Intact.step (hs : s.Intact m) (h : s.Owned owner) (ha : a.unprotects m = false)
    (hstep : s.step a = some s') : s'.Intact m := by
  intro i hmm
  rcases h.mm_of_step hstep hmm with hmm' | hcl
  · exact (hs i hmm').step h ha hstep
  · rcases hcl.step h ha hstep with ⟨hcl', -⟩ | hl | ⟨-, -, -, -, -, -, -, -, hnull⟩
    · exact absurd (hmm.symm.trans hcl'.mm) nofun
    · exact hl
    · exact absurd (hmm.symm.trans hnull) nofun

/-- An mm that is protected stays so while nobody removes its entries. -/
lemma Intact.protected_step (hs : s.Intact m) (h : s.Owned owner) (ha : a.unprotects m = false)
    (hstep : s.step a = some s') (hprot : acIsProtectedMm s.prots (some m) = true) :
    acIsProtectedMm s'.prots (some m) = true := by
  rw [acIsProtectedMm_some] at hprot ⊢
  obtain ⟨i, hmm⟩ := hprot
  exact ⟨i, ((hs i hmm).step h ha hstep).mm⟩

/-! ### Entries that are there or on their way -/

/-- An entry of the mm is published or claimed, and nobody is removing it. -/
def Covers (s : Registry M) (m : M) : Prop := ∃ i, s.LiveAt i m ∨ s.ClaimAt i m

/-- `mmu_notifier_register` has not failed for a call that has yet to find out. -/
def NoneFailed (s : Registry M) : Prop :=
  ∀ call ∈ s.calls, ∀ i ret, call.pc = .registered i ret → ret = 0

/-- `ac_add_prot_mm` of the mm would not return `-ENOSPC`. -/
def hasRoom (s : Registry M) (m : M) : Bool :=
  addScan s.prots m (List.finRange acProtMax) none != .free none

end Registry

/-- The action is not a failure of `mmu_notifier_register`. -/
def RegAct.registers : RegAct M → Bool
  | .register _ ret => ret == 0
  | _ => true

namespace Registry

variable {s s' : Registry M} {owner : Slot → Owner M} {m : M} {i : Slot} {a : RegAct M}

lemma NoneFailed.init : (Registry.init (M := M)).NoneFailed := nofun

lemma NoneFailed.append (h : s.NoneFailed) {call : Call M}
    (hpc : ∀ i ret, call.pc = .registered i ret → ret = 0) :
    ∀ call' ∈ s.calls ++ [call], ∀ i ret, call'.pc = .registered i ret → ret = 0 := by
  intro call' hmem
  rcases List.mem_append.mp hmem with hmem | hmem
  · exact h call' hmem
  · rw [List.mem_singleton.mp hmem]
    exact hpc

lemma NoneFailed.set (h : s.NoneFailed) {c : ℕ} {call : Call M}
    (hpc : ∀ i ret, call.pc = .registered i ret → ret = 0) :
    ∀ call' ∈ s.calls.set c call, ∀ i ret, call'.pc = .registered i ret → ret = 0 := by
  intro call' hmem
  rcases List.mem_or_eq_of_mem_set hmem with hmem | rfl
  · exact h call' hmem
  · exact hpc

variable [DecidableEq M]

theorem NoneFailed.step (h : s.NoneFailed) (ha : a.registers = true)
    (hstep : s.step a = some s') : s'.NoneFailed := by
  cases rule_of_step hstep with
  | addPublished => exact h.append nofun
  | addJoined => exact h.append nofun
  | addFull => exact h.append nofun
  | addClaim => exact h.append nofun
  | registerOk c call i hc hpc =>
    refine h.set fun j ret hj => ?_
    cases hj
    rfl
  | registerFail c call i ret hc hpc hret =>
    exact absurd (by simpa [RegAct.registers] using ha) hret
  | settleFail => exact h.set nofun
  | settleCancel => exact h.set nofun
  | settlePublish => exact h.set nofun
  | delFound => exact h.append nofun
  | delNone => exact h.append nofun
  | clearFound => exact h.append nofun
  | unregReturn => exact h.set nofun
  | finish => exact h.set nofun
  | _ => exact h

theorem Covers.step (hs : s.Covers m) (h : s.Owned owner) (hfail : s.NoneFailed)
    (ha : a.unprotects m = false) (hstep : s.step a = some s') : s'.Covers m := by
  obtain ⟨i, hl | hcl⟩ := hs
  · exact ⟨i, .inl (hl.step h ha hstep)⟩
  · rcases hcl.step h ha hstep with ⟨hcl', -⟩ | hl | ⟨c, call, ret, -, hc, hpc, hret, -⟩
    · exact ⟨i, .inr hcl'⟩
    · exact ⟨i, .inl hl⟩
    · exact absurd (hfail call (List.mem_of_getElem? hc) i ret hpc) hret

/-- The scan of `ac_add_prot_mm` that ends with nothing does so for want of a slot. -/
lemma exists_of_hasRoom (hroom : s.hasRoom m = true) :
    ∃ i, (s.prots i).LiveFor m ∨ (s.prots i).IsFree := by
  have hsound := addScan_sound s.prots m (List.finRange acProtMax) none
  have hne : addScan s.prots m (List.finRange acProtMax) none ≠ .free none := by
    simpa [hasRoom] using hroom
  cases hscan : addScan s.prots m (List.finRange acProtMax) none with
  | published i =>
    rw [hscan] at hsound
    exact ⟨i, .inl (.inl hsound)⟩
  | claimed i =>
    rw [hscan] at hsound
    exact ⟨i, .inl (.inr hsound)⟩
  | free found =>
    rw [hscan] at hsound
    obtain ⟨-, hfree, -⟩ := hsound
    cases found with
    | none => exact absurd hscan hne
    | some i => exact ⟨i, .inr ((hfree i rfl).resolve_left (by simp))⟩

/-- The first critical section of `ac_add_prot_mm`. -/
lemma NotExiting.covers_addEnter (hs : s.NotExiting m) (hroom : s.hasRoom m = true) {pid : ℤ}
    {comm : String} {jit : Bool} (hstep : s.step (.addEnter m pid comm jit) = some s') :
    s'.Covers m := by
  rcases hs.promised_addEnter hstep with ⟨i, hl⟩ | ⟨i, hcl, -⟩ | ⟨call, ret, hc, hpc, hret⟩
  · exact ⟨i, .inl hl⟩
  · exact ⟨i, .inr hcl⟩
  · cases rule_of_step hstep with
    | addFull _ _ _ _ hfull =>
      obtain ⟨i, hi⟩ := exists_of_hasRoom hroom
      exact absurd hi (not_or.mpr (hfull i))
    | addPublished _ _ _ _ i hmm hrem =>
      exact ⟨i, .inl ⟨by simp [hmm], by simp [hrem], (hs i hmm hrem).notifier⟩⟩
    | addJoined _ _ _ _ i hmm hclaim hcancel => exact ⟨i, .inr ⟨hmm, hclaim, hcancel⟩⟩
    | addClaim _ _ _ _ i hnone hfree => exact ⟨i, .inr ⟨by simp, by simp, by simp⟩⟩

/-- The call that claims a slot works on it. -/
lemma callAt_of_claim {pid : ℤ} {comm : String} {jit : Bool}
    (hnone : ∀ k, ¬ (s.prots k).LiveFor m)
    (hstep : s.step (.addEnter m pid comm jit) = some s') (hcl : s'.ClaimAt i m) :
    CallAt s'.calls s.calls.length i := by
  have hlive : (s'.prots i).LiveFor m := .inr ⟨hcl.mm, hcl.claiming, hcl.cancel⟩
  cases rule_of_step hstep with
  | addPublished _ _ _ _ k hmm hrem => exact absurd (.inl ⟨hmm, hrem⟩) (hnone k)
  | addJoined => exact absurd hlive (hnone i)
  | addFull => exact absurd hlive (hnone i)
  | addClaim _ _ _ _ k _ hfree =>
    by_cases hik : i = k
    · subst hik
      exact ⟨_, List.getElem?_concat_length, rfl⟩
    · have hlive' : (s.prots i).LiveFor m := by simpa [Function.update_of_ne hik] using hlive
      exact absurd hlive' (hnone i)

omit [DecidableEq M] in
/-- A claim is held by a call for its mm. -/
lemma Within.claimAt {P : M → Prop} (h : s.Within P) (howned : s.Owned owner)
    (hcl : s.ClaimAt i m) : P m := by
  obtain ⟨c, m', pc, ho, hclaim⟩ := (howned.slots i).owner_reserved hcl.mm
  obtain ⟨-, kind, hc⟩ := howned.calls.holder i c m' pc ho
  rw [hcl.claiming] at hclaim
  cases hclaim
  exact h.call _ (List.mem_of_getElem? hc)

end Registry

end Anticheat
