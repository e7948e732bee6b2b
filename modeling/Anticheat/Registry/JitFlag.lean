import Anticheat.Registry.Cover

/-!
# The JIT flag and the last registration

`ac_add_prot_mm` writes the flag of an mm where it finds an entry, and where it publishes its own
claim; a call that finds the claim of another one writes nothing. So what the flag becomes is
decided by the last call to enter, except when it enters while a registration is in flight: then
the call that holds the claim decides.
-/

namespace Anticheat

open Transition

variable {M : Type}

/-- The `jit_allowed` argument of `ac_add_prot_mm`. -/
def CallKind.jitAllowed : CallKind → Bool
  | .add _ _ jit => jit
  | _ => false

namespace Registry

variable {s s' : Registry M} {owner : Slot → Owner M} {m : M} {i : Slot} {j : Bool} {c : ℕ}

/-- The flag of the mm is `j`, or will be once the call that holds its claim publishes it. -/
def FlagIs (s : Registry M) (m : M) (j : Bool) : Prop :=
  ∃ i, (s.LiveAt i m ∧ (s.prots i).jitAllowed = j) ∨
    s.ClaimAt i m ∧ ∃ (c : ℕ) (call : Call M), s.calls[c]? = some call ∧ call.pc.slot = some i ∧
      call.kind.jitAllowed = j

/-- No claim for the mm is cancelled. -/
def Uncancelled (s : Registry M) (m : M) : Prop :=
  ∀ i, (s.prots i).mm = .reserved → (s.prots i).claiming = some m → (s.prots i).cancel = false

section Steps

variable [DecidableEq M] {a : RegAct M}

/-- Nobody deletes the mm, it does not exit, and no registration fails. -/
def undisturbed (m : M) (_ : Registry M) (a : RegAct M) : Bool :=
  !a.unprotects m && a.registers

/-- The flag of a live entry is written by `ac_add_prot_mm` of its mm only. -/
lemma LiveAt.jitAllowed_step (hl : s.LiveAt i m) (h : s.Owned owner)
    (ha : a.adds m = false) (hstep : s.step a = some s') :
    (s'.prots i).jitAllowed = (s.prots i).jitAllowed := by
  have heff := entryStep_of_step hstep i
  generalize s'.prots i = e at heff
  cases heff with
  | refreshed m' pid comm jit hmm =>
    obtain rfl : m = m' := SlotMm.mm.inj (hl.mm.symm.trans hmm)
    simp [RegAct.adds] at ha
  | published c call pid comm jit hc hpc hkind hcancel =>
    exact absurd rfl (hl.ne_of_call h hc (by rw [hpc]; rfl))
  | cleared a e hmm hjit => exact hjit
  | same | claimed | cancelled | marked => rfl

/-- A call keeps its arguments. -/
lemma call_step {call : Call M} (hc : s.calls[c]? = some call) (hstep : s.step a = some s') :
    ∃ pc, s'.calls[c]? = some { call with pc := pc } := by
  rcases calls_of_step hstep with hcalls | ⟨new, hcalls⟩ | ⟨d, call', pc, hd, -, hcalls⟩
  · exact ⟨call.pc, by rw [hcalls, hc]⟩
  · exact ⟨call.pc, by rw [hcalls, CallsOk.getElem?_snoc_of_some hc]⟩
  · rw [hcalls]
    by_cases hdc : d = c
    · subst hdc
      obtain rfl : call' = call := Option.some.inj (hd.symm.trans hc)
      exact ⟨pc, List.getElem?_set_self (List.getElem?_eq_some_iff.mp hc).1⟩
    · exact ⟨call.pc, by rw [List.getElem?_set_ne hdc, hc]⟩

/-- A claim that is published gets the flag of the call that holds it. -/
lemma ClaimAt.jitAllowed_step (hcl : s.ClaimAt i m) (h : s.Owned owner) {call : Call M}
    (hc : s.calls[c]? = some call) (hslot : call.pc.slot = some i)
    (hstep : s.step a = some s') (hl : s'.LiveAt i m) :
    (s'.prots i).jitAllowed = call.kind.jitAllowed := by
  have hres : (s.prots i).mm ≠ .mm m := by
    rw [hcl.mm]
    nofun
  have hmm := hl.mm
  have heff := entryStep_of_step hstep i
  generalize s'.prots i = e at hmm heff
  cases heff with
  | published d call' pid comm jit hd hpc hkind hcancel =>
    have hsame := (h.calls.held c call i hc hslot).symm.trans
      (h.calls.held d call' i hd (by rw [hpc]; rfl))
    obtain rfl := (Owner.call.inj hsame).1
    obtain rfl : call = call' := Option.some.inj (hc.symm.trans hd)
    simp [hkind, CallKind.jitAllowed]
  | claimed m' pid comm jit hfree => cases hmm
  | cleared a e hnull hjit => cases hnull.symm.trans hmm
  | same | refreshed | cancelled | marked => exact absurd hmm hres

/-- The flag stays until the next `ac_add_prot_mm` of the mm. -/
lemma FlagIs.step (hs : s.FlagIs m j) (h : s.Owned owner) (hfail : s.NoneFailed)
    (hun : a.unprotects m = false) (ha : a.adds m = false) (hstep : s.step a = some s') :
    s'.FlagIs m j := by
  obtain ⟨i, ⟨hl, hj⟩ | ⟨hcl, c, call, hc, hslot, hj⟩⟩ := hs
  · exact ⟨i, .inl ⟨hl.step h hun hstep, (hl.jitAllowed_step h ha hstep).trans hj⟩⟩
  · rcases hcl.step h hun hstep with ⟨hcl', -, hcall⟩ | hl | ⟨d, call', ret, -, hd, hpc, hret, -⟩
    · obtain ⟨call', hc', hslot'⟩ := hcall c ⟨call, hc, hslot⟩
      obtain ⟨pc, hpc⟩ := call_step hc hstep
      obtain rfl := Option.some.inj (hc'.symm.trans hpc)
      exact ⟨i, .inr ⟨hcl', c, _, hc', hslot', hj⟩⟩
    · exact ⟨i, .inl ⟨hl, (hcl.jitAllowed_step h hc hslot hstep hl).trans hj⟩⟩
    · exact absurd (hfail call' (List.mem_of_getElem? hd) i ret hpc) hret

/-- Only `ac_del_prot_mm` cancels a claim. -/
lemma Uncancelled.step (hs : s.Uncancelled m) (hun : a.unprotects m = false)
    (hstep : s.step a = some s') : s'.Uncancelled m := by
  intro i hmm hclaim
  have heff := entryStep_of_step hstep i
  generalize s'.prots i = e at hmm hclaim heff ⊢
  cases heff with
  | claimed m' pid comm jit hfree => rfl
  | published c call pid comm jit hc hpc hkind hcancel => cases hmm
  | cancelled m' hres hclaim' =>
    obtain rfl : m' = m := Option.some.inj (hclaim'.symm.trans hclaim)
    simp [RegAct.unprotects] at hun
  | cleared a e hnull hjit => cases hnull.symm.trans hmm
  | same | refreshed | marked => exact hs i hmm hclaim

/-! ### Undisturbed runs -/

/-- What holds of the mm while nobody disturbs it. -/
structure Calm (s : Registry M) (m : M) : Prop where
  inv : s.Inv
  intact : s.Intact m
  uncancelled : s.Uncancelled m
  noneFailed : s.NoneFailed

lemma Calm.init : (Registry.init (M := M)).Calm m where
  inv := .init
  intact := nofun
  uncancelled := nofun
  noneFailed := .init

lemma undisturbed_iff : undisturbed m s a = true ↔ a.unprotects m = false ∧ a.registers = true := by
  simp [undisturbed]

lemma Calm.step (hs : s.Calm m) (ha : undisturbed m s a = true) (hstep : s.step a = some s') :
    s'.Calm m := by
  obtain ⟨hun, hreg⟩ := undisturbed_iff.mp ha
  obtain ⟨owner, howned⟩ := hs.inv.owned
  exact ⟨hs.inv.step hstep, hs.intact.step howned hun hstep, hs.uncancelled.step hun hstep,
    hs.noneFailed.step hreg hstep⟩

lemma Calm.of_run {as : List (RegAct M)} (hs : s.Calm m)
    (hrun : run (restrict (undisturbed m) Registry.step) s as = some s') : s'.Calm m := by
  refine run_invariant (P := (Calm · m)) (fun s a s' hs hst => ?_) hs hrun
  obtain ⟨ha, hst⟩ := restrict_eq_some.mp hst
  exact hs.step ha hst

lemma FlagIs.of_run {as : List (RegAct M)} (hf : s.FlagIs m j) (hs : s.Calm m)
    (hrun : run (restrict (undisturbed m) Registry.step) s as = some s')
    (has : ∀ a ∈ as, a.adds m = false) : s'.FlagIs m j := by
  induction as generalizing s with
  | nil => exact Option.some.inj hrun ▸ hf
  | cons a as ih =>
    obtain ⟨t, hst, hrun⟩ := run_cons_eq_some.mp hrun
    obtain ⟨ha, hst⟩ := restrict_eq_some.mp hst
    obtain ⟨owner, howned⟩ := hs.inv.owned
    have hf' := hf.step howned hs.noneFailed (undisturbed_iff.mp ha).1
      (has a List.mem_cons_self) hst
    exact ih hf' (hs.step ha hst) hrun fun b hb => has b (List.mem_cons_of_mem _ hb)

/-- Once every call for the mm has returned, `ac_prot_jit_allowed_mm` answers its flag. -/
lemma FlagIs.jitAllowed (hf : s.FlagIs m j) (hs : s.Calm m)
    (hret : ∀ call ∈ s.calls, call.mm = m → call.pc.slot = none) :
    acProtJitAllowedMm s.prots m = j := by
  obtain ⟨owner, howned⟩ := hs.inv.owned
  obtain ⟨i, ⟨hl, hj⟩ | ⟨hcl, -⟩⟩ := hf
  · -- all entries of the mm are the one at `i`
    have hall : ∀ k, (s.prots k).mm = .mm m ↔ k = i := by
      refine fun k => ⟨fun hk => ?_, fun hk => hk ▸ hl.mm⟩
      exact hs.inv.unique m k i (.inl ⟨hk, (hs.intact k hk).removing⟩) (.inl ⟨hl.mm, hl.removing⟩)
    have hfilter : (List.finRange acProtMax).filter (fun k => (s.prots k).mm == .mm m) ≠ [] :=
      List.ne_nil_of_mem (List.mem_filter.mpr ⟨List.mem_finRange i, by simp [hl.mm]⟩)
    rw [acProtJitAllowedMm, List.isEmpty_eq_false_iff.mpr hfilter, Bool.not_false, Bool.true_and,
      Bool.eq_iff_iff, List.all_eq_true]
    simp [hall, hj]
  · -- a claim belongs to a call that has not returned
    obtain ⟨c, m', pc, ho, hclaim⟩ := (howned.slots i).owner_reserved hcl.mm
    obtain ⟨hslot, kind, hc⟩ := howned.calls.holder i c m' pc ho
    have hm : m' = m := Option.some.inj (hclaim.symm.trans hcl.claiming)
    exact absurd (hslot.symm.trans (hret _ (List.mem_of_getElem? hc) hm)) nofun

/-- A call that holds a claim of the mm. -/
lemma Calm.claimAt_of_claims (hs : s.Calm m) {call : Call M} (hc : s.calls[c]? = some call)
    (hm : call.mm = m) (hclaims : call.pc.claims = true) :
    ∃ i, s.ClaimAt i m ∧ call.pc.slot = some i := by
  obtain ⟨owner, howned⟩ := hs.inv.owned
  obtain ⟨i, hslot⟩ : ∃ i, call.pc.slot = some i := by
    cases hpc : call.pc <;> simp [hpc, CallPc.claims] at hclaims <;> exact ⟨_, rfl⟩
  have hi := howned.slot_of_call hc hslot
  refine ⟨i, ?_, hslot⟩
  subst hm
  obtain ⟨mm, kind, pc⟩ := call
  cases hi with
  | registering _ _ hmm hclaim => exact ⟨hmm, hclaim, hs.uncancelled i hmm hclaim⟩
  | registered _ _ _ hmm hclaim => exact ⟨hmm, hclaim, hs.uncancelled i hmm hclaim⟩
  | unregistering => cases hclaims
  | unregistered => cases hclaims

/-- After the first critical section of `ac_add_prot_mm`, the flag is the one of the call, or of
the call whose claim it found. -/
lemma Calm.flagIs_addEnter (hs : s.Calm m) {pid : ℤ} {comm : String} {jit : Bool}
    (hstep : s.step (.addEnter m pid comm jit) = some s')
    (hret : ∀ call ∈ s'.calls, call.mm = m → call.pc ≠ .returned errNospc) :
    ∃ j, s'.FlagIs m j ∧ (j = jit ↔ ∀ call ∈ s.calls, call.mm = m → call.pc.claims = true →
      call.kind.jitAllowed = jit) := by
  obtain ⟨owner, howned⟩ := hs.inv.owned
  -- no call holds a claim when there is another live slot
  have hvacuous : ∀ {P : Prop}, P → (∀ k, ¬ s.ClaimAt k m) → (P ↔ ∀ call ∈ s.calls, call.mm = m →
      call.pc.claims = true → call.kind.jitAllowed = jit) := by
    intro P hP hno
    refine ⟨fun _ call hmem hm hclaims => ?_, fun _ => hP⟩
    obtain ⟨c, hc⟩ := List.getElem?_of_mem hmem
    obtain ⟨k, hk, -⟩ := hs.claimAt_of_claims hc hm hclaims
    exact absurd hk (hno k)
  cases rule_of_step hstep with
  | addPublished _ _ _ _ i hmm hrem =>
    have hl := hs.intact i hmm
    refine ⟨jit, ⟨i, .inl ⟨⟨by simp [hmm], by simp [hrem], hl.notifier⟩, by simp⟩⟩,
      hvacuous rfl fun k hk => ?_⟩
    have hik := hs.inv.unique m i k (.inl ⟨hmm, hrem⟩) (.inr ⟨hk.mm, hk.claiming, hk.cancel⟩)
    subst hik
    exact absurd (hmm.symm.trans hk.mm) nofun
  | addJoined _ _ _ _ i hmm hclaim hcancel =>
    obtain ⟨c, m', pc, ho, hclaim'⟩ := (howned.slots i).owner_reserved hmm
    obtain rfl : m = m' := Option.some.inj (hclaim.symm.trans hclaim')
    obtain ⟨hslot, kind, hc⟩ := howned.calls.holder i c m pc ho
    have hclaims : pc.claims = true := by
      have hi := howned.slots i
      rw [ho] at hi
      cases hi with
      | registering => rfl
      | registered => rfl
      | unregistering _ _ hmm' => exact absurd hmm (by rcases hmm' with h | h <;> simp [h])
      | unregistered _ _ hmm' => exact absurd hmm (by simp [hmm'])
    refine ⟨kind.jitAllowed, ⟨i, .inr ⟨⟨hmm, hclaim, hcancel⟩, c, _,
      CallsOk.getElem?_snoc_of_some hc, hslot, rfl⟩⟩, fun hj call hmem hm hcl => ?_,
      fun hall => hall _ (List.mem_of_getElem? hc) rfl hclaims⟩
    -- the claims of the mm are all at this slot, and it has one holder
    obtain ⟨d, hd⟩ := List.getElem?_of_mem hmem
    obtain ⟨k, hk, hkslot⟩ := hs.claimAt_of_claims hd hm hcl
    obtain rfl := hs.inv.unique m i k (.inr ⟨hmm, hclaim, hcancel⟩)
      (.inr ⟨hk.mm, hk.claiming, hk.cancel⟩)
    obtain rfl := (Owner.call.inj (ho.symm.trans (howned.calls.held d call i hd hkslot))).1
    obtain rfl := Option.some.inj (hc.symm.trans hd)
    exact hj
  | addFull =>
    exact absurd rfl (hret _ (List.mem_append_right _ (List.mem_singleton_self _)) rfl)
  | addClaim _ _ _ _ i hnone hfree =>
    refine ⟨jit, ⟨i, .inr ⟨⟨by simp, by simp, by simp⟩, s.calls.length, _,
      List.getElem?_concat_length, rfl, rfl⟩⟩, hvacuous rfl fun k hk => ?_⟩
    exact hnone k (.inr ⟨hk.mm, hk.claiming, hk.cancel⟩)

/-- In every run in which nobody deletes the mm, it does not exit and no registration fails: once
all calls for it have returned 0, `ac_prot_jit_allowed_mm` answers the flag of the call that
entered last exactly when every registration then in flight for the mm had the same flag. -/
theorem jitAllowed_last_iff {as bs : List (RegAct M)} {pid : ℤ} {comm : String} {jit : Bool}
    {s₁ : Registry M}
    (hfirst : run (restrict (undisturbed m) Registry.step) Registry.init as = some s₁)
    (hrest : run (restrict (undisturbed m) Registry.step) s₁ (.addEnter m pid comm jit :: bs) =
      some s)
    (hlast : ∀ a ∈ bs, a.adds m = false)
    (hret : ∀ call ∈ s.calls, call.mm = m → call.pc = .returned 0) :
    acProtJitAllowedMm s.prots m = jit ↔
      ∀ call ∈ s₁.calls, call.mm = m → call.pc.claims = true → call.kind.jitAllowed = jit := by
  have hs₁ := Calm.of_run (.init (m := m)) hfirst
  obtain ⟨s₂, hst, hrun⟩ := run_cons_eq_some.mp hrest
  obtain ⟨ha, hst⟩ := restrict_eq_some.mp hst
  have hs₂ := hs₁.step ha hst
  -- a call that has returned an error would still stand there
  have hnospc : ∀ call ∈ s₂.calls, call.mm = m → call.pc ≠ .returned errNospc := by
    intro call hmem hm hpc
    obtain ⟨c, hc⟩ := List.getElem?_of_mem hmem
    have hend := run_invariant (P := fun s => s.calls[c]? = some call)
      (fun s a s' hs hst => returned_of_step hs (by rw [hpc]; rfl) (restrict_eq_some.mp hst).2)
      hc hrun
    have := hret call (List.mem_of_getElem? hend) hm
    rw [hpc] at this
    exact absurd this (by decide)
  obtain ⟨j, hf, hj⟩ := hs₁.flagIs_addEnter hst hnospc
  have hend := (hf.of_run hs₂ hrun hlast).jitAllowed (hs₂.of_run hrun)
    fun call hmem hm => by rw [hret call hmem hm]; rfl
  rw [hend, hj]

end Steps

/-! Two calls with different flags, the second of which finds the claim of the first. -/

/-- The second call enters while the first is in `mmu_notifier_register`. -/
def joinedAdd (jit : Bool) : List (RegAct ℕ) :=
  [.addEnter 7 100 "game" false, .addEnter 7 100 "game" jit, .register 0 0, .addSettle 0]

/-- Both calls return 0, and the flag is not the one of the call that entered last. -/
theorem jitAllowed_of_first : (run Registry.step Registry.init (joinedAdd true)).any (fun s =>
    s.calls.all (·.pc = .returned 0) && s.calls.map (·.kind.jitAllowed) == [false, true] &&
      acProtJitAllowedMm s.prots 7 == false) = true := by
  decide +kernel

/-- The state in which the second call enters. -/
def joinedMid : Option (Registry ℕ) :=
  run (restrict (undisturbed 7) Registry.step) Registry.init [.addEnter 7 100 "game" false]

lemma joinedMid_isSome : joinedMid.isSome = true := by decide +kernel

def joinedEnd : Option (Registry ℕ) :=
  run (restrict (undisturbed 7) Registry.step) (joinedMid.get joinedMid_isSome)
    [.addEnter 7 100 "game" false, .register 0 0, .addSettle 0]

lemma joinedEnd_isSome : joinedEnd.isSome = true := by decide +kernel

/-- With the same flag it is. -/
theorem jitAllowed_last_iff_joined :
    acProtJitAllowedMm (joinedEnd.get joinedEnd_isSome).prots 7 = false :=
  (jitAllowed_last_iff (m := 7) (Option.some_get joinedMid_isSome).symm
    (Option.some_get joinedEnd_isSome).symm (by decide) (by decide +kernel)).mpr (by decide +kernel)

end Registry

end Anticheat
