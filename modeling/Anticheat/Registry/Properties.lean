import Anticheat.Registry.Progress

/-!
# What adding and deleting guarantee

The results about whole runs of the registry: one live slot for an address space, deletes that are
not lost, the counter and the notifier registrations, and what a 0 from `ac_add_prot_mm` means.
-/

namespace Anticheat

open Transition

variable {M : Type}

/-! ### A delete is not lost -/

/-- The slot is published for the mm or claimed for it. -/
def AcProtEntry.EntryFor (m : M) (e : AcProtEntry M) : Prop :=
  e.mm = .mm m ∨ (e.mm = .reserved ∧ e.claiming = some m)

lemma AcProtEntry.not_entryFor_of_null {m : M} {e : AcProtEntry M} (h : e.mm = .null) :
    ¬ e.EntryFor m := by
  simp [AcProtEntry.EntryFor, h]

/-- Call `c` is working on slot `i`. -/
def CallAt (calls : List (Call M)) (c : ℕ) (i : Slot) : Prop :=
  ∃ call, calls[c]? = some call ∧ call.pc.slot = some i

/-- One of the first `n` calls is working on slot `i`. -/
def Working (calls : List (Call M)) (n : ℕ) (i : Slot) : Prop :=
  ∃ c < n, CallAt calls c i

section Working

variable {calls : List (Call M)} {n c d : ℕ} {i j : Slot} {call : Call M} {pc : CallPc}

lemma CallAt.append (h : CallAt calls c i) (call : Call M) : CallAt (calls ++ [call]) c i := by
  obtain ⟨call', hc, hslot⟩ := h
  exact ⟨call', CallsOk.getElem?_snoc_of_some hc, hslot⟩

lemma CallAt.set (h : CallAt calls d j) (hc : calls[c]? = some call)
    (hslot : call.pc.slot = some i) (hpc : j = i → pc.slot = some i) :
    CallAt (calls.set c { call with pc := pc }) d j := by
  obtain ⟨call', hd, hj⟩ := h
  by_cases hcd : c = d
  · subst hcd
    obtain rfl : call = call' := Option.some.inj (hc.symm.trans hd)
    obtain rfl : i = j := Option.some.inj (hslot.symm.trans hj)
    refine ⟨{ call with pc := pc }, ?_, hpc rfl⟩
    rw [List.getElem?_set_self (List.getElem?_eq_some_iff.mp hc).1]
  · exact ⟨call', by rw [List.getElem?_set_ne hcd, hd], hj⟩

lemma Working.append (h : Working calls n i) (call : Call M) : Working (calls ++ [call]) n i := by
  obtain ⟨c, hlt, hat⟩ := h
  exact ⟨c, hlt, hat.append call⟩

lemma Working.set (h : Working calls n j) (hc : calls[c]? = some call)
    (hslot : call.pc.slot = some i) (hpc : j = i → pc.slot = some i) :
    Working (calls.set c { call with pc := pc }) n j := by
  obtain ⟨d, hlt, hat⟩ := h
  exact ⟨d, hlt, hat.set hc hslot hpc⟩

lemma Working.mono {n' : ℕ} (h : Working calls n i) (hle : n ≤ n') : Working calls n' i := by
  obtain ⟨c, hlt, hat⟩ := h
  exact ⟨c, hlt.trans_le hle, hat⟩

end Working

/-- After a delete, every slot that still carries the mm is being torn down or is cancelled, by a
call that had started when the delete took the lock. -/
def Registry.Doomed (s : Registry M) (m : M) (n : ℕ) : Prop :=
  ∀ i, (s.prots i).EntryFor m → ¬ (s.prots i).LiveFor m ∧ Working s.calls n i

/-- The action is an `ac_add_prot_mm` of the mm. -/
def RegAct.adds [DecidableEq M] (m : M) : RegAct M → Bool
  | .addEnter m' _ _ _ => m' == m
  | _ => false

section Doomed

variable {s s' : Registry M} {owner : Slot → Owner M} {m : M} {n : ℕ} {i : Slot}
variable {e : AcProtEntry M}

lemma Registry.Doomed.frame (h : s.Doomed m n) (hprots : s'.prots = s.prots)
    (hwork : ∀ j, Working s.calls n j → Working s'.calls n j) : s'.Doomed m n := by
  intro j hj
  rw [hprots] at hj ⊢
  exact ⟨(h j hj).1, hwork j (h j hj).2⟩

lemma Registry.Doomed.update (h : s.Doomed m n) (hprots : s'.prots = Function.update s.prots i e)
    (hwork : ∀ j ≠ i, Working s.calls n j → Working s'.calls n j)
    (hi : e.EntryFor m → ¬ e.LiveFor m ∧ Working s'.calls n i) : s'.Doomed m n := by
  intro j hj
  rw [hprots] at hj ⊢
  by_cases hji : j = i
  · subst hji
    rw [Function.update_self] at hj ⊢
    exact hi hj
  · rw [Function.update_of_ne hji] at hj ⊢
    exact ⟨(h j hj).1, hwork j hji (h j hj).2⟩

/-- A slot of the mm that is not published or being removed is in the hands of a call. -/
lemma Registry.Owned.working (h : s.Owned owner) (hentry : (s.prots i).EntryFor m)
    (hpub : ¬ ((s.prots i).mm = .mm m ∧ (s.prots i).removing = false)) :
    Working s.calls s.calls.length i := by
  have hcall : ∃ c m' pc, owner i = .call c m' pc := by
    rcases hentry with hmm | ⟨hmm, -⟩
    · have hrem : (s.prots i).removing = true := by
        by_contra hrem
        exact hpub ⟨hmm, Bool.eq_false_of_not_eq_true hrem⟩
      obtain ⟨c, ho⟩ := (h.slots i).owner_removing hmm hrem
      exact ⟨c, _, _, ho⟩
    · obtain ⟨c, m', pc, ho, -⟩ := (h.slots i).owner_reserved hmm
      exact ⟨c, m', pc, ho⟩
  obtain ⟨c, m', pc, ho⟩ := hcall
  obtain ⟨hslot, kind, hc⟩ := h.calls.holder i c m' pc ho
  exact ⟨c, (List.getElem?_eq_some_iff.mp hc).1, _, hc, hslot⟩

variable [DecidableEq M] {a : RegAct M}

lemma entryFor_of_cancelClaims {m' : M} {prots : Slot → AcProtEntry M}
    (h : (cancelClaims prots m' i).EntryFor m) : (prots i).EntryFor m := by
  unfold cancelClaims at h
  split_ifs at h <;> exact h

/-- What the first critical section of a delete leaves behind. -/
lemma Registry.Inv.doomed_delEnter (h : s.Inv) (hstep : s.step (.delEnter m) = some s') :
    s'.Doomed m (s.calls.length + 1) := by
  obtain ⟨owner, howned⟩ := h.owned
  have hworking : ∀ j call, (s.prots j).EntryFor m →
      ¬ ((s.prots j).mm = .mm m ∧ (s.prots j).removing = false) →
      Working (s.calls ++ [call]) (s.calls.length + 1) j := fun j call hj hpub =>
    ((howned.working hj hpub).append call).mono (Nat.le_succ _)
  cases Registry.rule_of_step hstep with
  | delFound _ i hmm hrem =>
    have hlive : (s.prots i).LiveFor m := .inl ⟨hmm, hrem⟩
    intro j hj
    by_cases hji : j = i
    · subst hji
      refine ⟨?_, s.calls.length, Nat.lt_succ_self _, _, List.getElem?_concat_length, rfl⟩
      simp [AcProtEntry.LiveFor, hmm]
    · have hprots : (s.prots j) = Function.update s.prots i
          { s.prots i with removing := true } j := (Function.update_of_ne hji _ _).symm
      simp only [Registry.newCall_prots, Registry.setSlot_prots, ← hprots] at hj ⊢
      have hdead : ¬ (s.prots j).LiveFor m := fun hj' => hji (h.unique m j i hj' hlive)
      exact ⟨hdead, hworking j _ hj fun hpub => hdead (.inl hpub)⟩
  | delNone _ hnone =>
    intro j hj
    refine ⟨?_, hworking j _ (entryFor_of_cancelClaims hj) (hnone j)⟩
    have hnot := hnone j
    simp only [Registry.newCall_prots, AcProtEntry.LiveFor, cancelClaims]
    split_ifs with hclaim
    · simp [hclaim.1]
    · rintro (hpub | ⟨hmm, hcl, -⟩)
      · exact hnot hpub
      · exact hclaim ⟨hmm, hcl⟩

lemma Registry.Doomed.step (hd : s.Doomed m n) (h : s.Owned owner) (ha : a.adds m = false)
    (hstep : s.step a = some s') : s'.Doomed m n := by
  have happend : ∀ call j, Working s.calls n j → Working (s.calls ++ [call]) n j :=
    fun call j hj => hj.append call
  cases Registry.rule_of_step hstep with
  | addPublished m' pid comm jit i hmm hrem =>
    exact hd.update (i := i) rfl (fun j _ => happend _ j) fun he =>
      ⟨(hd i he).1, happend _ i (hd i he).2⟩
  | addJoined m' pid comm jit i hmm hclaim hcancel => exact hd.frame rfl (happend _)
  | addFull m' pid comm jit hfull => exact hd.frame rfl (happend _)
  | addClaim m' pid comm jit i hnone hfree =>
    refine hd.update (i := i) rfl (fun j _ => happend _ j) fun he => ?_
    have hm : m' = m := by simpa [AcProtEntry.EntryFor] using he
    simp [RegAct.adds, hm] at ha
  | registerOk c call i hc hpc =>
    exact hd.frame rfl fun j hj => hj.set hc (by rw [hpc]; rfl) fun _ => rfl
  | registerFail c call i ret hc hpc hret =>
    exact hd.frame rfl fun j hj => hj.set hc (by rw [hpc]; rfl) fun _ => rfl
  | settleFail c call i ret hc hpc hret =>
    refine hd.update (i := i) rfl (fun j hji hj => ?_) fun he => ?_
    · exact hj.set hc (by rw [hpc]; rfl) fun h => absurd h hji
    · exact absurd he (AcProtEntry.not_entryFor_of_null rfl)
  | settleCancel c call i hc hpc hcancel =>
    refine hd.update (i := i) rfl (fun j hji hj => ?_) fun he => ?_
    · exact hj.set hc (by rw [hpc]; rfl) fun h => absurd h hji
    · exact absurd he (AcProtEntry.not_entryFor_of_null rfl)
  | settlePublish c call i pid comm jit hc hpc hkind hcancel =>
    refine hd.update (i := i) rfl (fun j hji hj => ?_) fun he => ?_
    · exact hj.set hc (by rw [hpc]; rfl) fun h => absurd h hji
    · -- the claim would have been live
      have hi := h.slot_of_call hc (i := i) (by rw [hpc]; rfl)
      rw [hpc] at hi
      cases hi with
      | registered _ _ _ hmm hclaim _ _ _ =>
      obtain rfl : call.mm = m := by simpa [AcProtEntry.EntryFor] using he
      exact absurd (.inr ⟨hmm, hclaim, hcancel⟩) (hd i (.inr ⟨hmm, hclaim⟩)).1
  | delFound m' i hmm hrem =>
    refine hd.update (i := i) rfl (fun j _ => happend _ j) fun he => ?_
    exact ⟨AcProtEntry.not_liveFor_of_removing (by simp [hmm]) rfl, happend _ i (hd i he).2⟩
  | delNone m' hnone =>
    intro j hj
    have hold := hd j (entryFor_of_cancelClaims hj)
    exact ⟨fun hlive => hold.1 (liveFor_of_cancelClaims hlive), happend _ j hold.2⟩
  | clearFound m' i hmm hrem =>
    refine hd.update (i := i) rfl (fun j _ => happend _ j) fun he => ?_
    exact ⟨AcProtEntry.not_liveFor_of_removing (by simp [hmm]) rfl, happend _ i (hd i he).2⟩
  | clearSkip i => exact hd
  | unregBegin c call i m' hc hpc hn => exact hd
  | unregReturn c call i hc hpc hquiet =>
    exact hd.frame rfl fun j hj => hj.set hc (by rw [hpc]; rfl) fun _ => rfl
  | finish c call i hc hpc =>
    have hi := h.slot_of_call hc (i := i) (by rw [hpc]; rfl)
    rw [hpc] at hi
    cases hi with
    | unregistered _ _ hmm _ _ _ =>
    refine hd.update (i := i) rfl (fun j hji hj => ?_) fun he => ?_
    · exact hj.set hc (by rw [hpc]; rfl) fun h => absurd h hji
    · exact absurd he (AcProtEntry.not_entryFor_of_null hmm)
  | exit m' hpin => exact hd
  | releaseCaller i m' hn hmm hrem =>
    exact hd.update (i := i) rfl (fun j _ hj => hj) fun he =>
      absurd he (AcProtEntry.not_entryFor_of_null rfl)
  | releaseOrganic i m' hn hmm hrem =>
    exact hd.update (i := i) rfl (fun j _ hj => hj) fun he =>
      absurd he (AcProtEntry.not_entryFor_of_null rfl)
  | releaseStale i m' hn hmm => exact hd
  | queueRelease i m' pid comm hn => exact hd.update (i := i) rfl (fun j _ hj => hj) (hd i)
  | workUnregister i m' hw hrel hquiet => exact hd
  | workFinish i hw =>
    have hi := h.slots i
    obtain ⟨m', ho⟩ := hi.owner_work (by simp [hw])
    rw [ho] at hi
    exact hd.update (i := i) rfl (fun j _ hj => hj) fun he =>
      absurd he (AcProtEntry.not_entryFor_of_null hi.entry_of_exit.1)

lemma Registry.Inv.doomed_run {as : List (RegAct M)} (h : s.Inv) (hd : s.Doomed m n)
    (has : ∀ a ∈ as, a.adds m = false) (hrun : run Registry.step s as = some s') :
    s'.Doomed m n := by
  refine (run_invariant_of_forall (P := fun t => t.Inv ∧ t.Doomed m n)
    (fun t a t' ha ht hstep => ?_) has ⟨h, hd⟩ hrun).2
  obtain ⟨owner, howned⟩ := ht.1.owned
  exact ⟨ht.1.step hstep, ht.2.step howned ha hstep⟩

/-- Call number `c` has returned. -/
def Registry.returned (s : Registry M) (c : ℕ) : Bool :=
  (s.calls[c]?).any fun call => call.pc.isReturned

/-- When the calls that had started are over, a doomed mm is unprotected. -/
lemma Registry.Doomed.not_protected (hd : s.Doomed m n) (hret : ∀ c < n, s.returned c = true) :
    acIsProtectedMm s.prots (some m) = false := by
  rw [Bool.eq_false_iff, ne_eq, acIsProtectedMm_some]
  rintro ⟨i, hmm⟩
  obtain ⟨-, c, hlt, call, hc, hslot⟩ := hd i (.inl hmm)
  have hcall := hret c hlt
  simp only [Registry.returned, hc, Option.any_some, ← CallPc.slot_eq_none_iff] at hcall
  simp [hcall] at hslot

end Doomed

/-- At most one slot is live for an mm, and a delete is effective once it and the calls in flight
at its critical section have returned, unless the mm is added again. -/
theorem registry_add_del [DecidableEq M] {as : List (RegAct M)} {s : Registry M}
    (h : run Registry.step Registry.init as = some s) :
    (∀ m i j, (s.prots i).LiveFor m → (s.prots j).LiveFor m → i = j) ∧
    ∀ m bs s', run Registry.step s (.delEnter m :: bs) = some s' →
      (∀ a ∈ bs, a.adds m = false) → (∀ c ≤ s.calls.length, s'.returned c = true) →
      acIsProtectedMm s'.prots (some m) = false := by
  have hinv := Registry.Inv.init.of_run h
  refine ⟨hinv.unique, fun m bs s' hrun hbs hret => ?_⟩
  obtain ⟨t, hdel, hrest⟩ := run_cons_eq_some.mp hrun
  have hdoomed := (hinv.step hdel).doomed_run (hinv.doomed_delEnter hdel) hbs hrest
  exact hdoomed.not_protected fun c hc => hret c (Nat.le_of_lt_succ hc)

/-- The rest of an `ac_add_prot_mm` whose claim was cancelled by a delete. -/
def cancelledAdd : List (RegAct ℕ) :=
  [.register 0 0, .addSettle 0, .unregBegin 0, .release 0, .unregReturn 0, .finish 0]

lemma cancelledAdd_runs : (run Registry.step (Registry.init.addEnter 7 100 "game" false)
    (.delEnter 7 :: cancelledAdd)).isSome = true := by
  decide +kernel

theorem registry_add_del_cancelledAdd :
    ∃ s s', run Registry.step Registry.init [.addEnter 7 100 "game" false] = some s ∧
      run Registry.step s (.delEnter 7 :: cancelledAdd) = some s' ∧
      acIsProtectedMm s'.prots (some 7) = false := by
  have hstart : run Registry.step Registry.init [.addEnter 7 100 "game" false] =
      some (Registry.init.addEnter 7 100 "game" false) := rfl
  have hend := (Option.some_get cancelledAdd_runs).symm
  refine ⟨_, _, hstart, hend, (registry_add_del hstart).2 7 _ _ hend ?_ ?_⟩
  · decide
  · decide +kernel

/-! ### The counter and the registrations -/

section Accounting

variable {s : Registry M}

/-- With nothing in flight, the registrations still owed are those of the published entries. -/
lemma Registry.Owned.owed_iff_of_quiet {owner : Slot → Owner M} (h : s.Owned owner)
    (hq : s.Quiet) (i : Slot) (m : M) :
    (s.notifier i).owed = some m ↔ (s.prots i).mm = .mm m := by
  have hi := h.slots i
  have hcallback := hq.callback i
  have hwork := hq.work i
  generalize ho : owner i = o at hi
  have hcall : ∀ c m' pc, o ≠ .call c m' pc := by
    rintro c m' pc rfl
    obtain ⟨hslot, kind, hc⟩ := h.calls.holder i c m' pc ho
    have hret := hq.calls _ (List.mem_of_getElem? hc)
    rw [← CallPc.slot_eq_none_iff] at hret
    exact absurd (hslot.symm.trans hret) nofun
  cases hi with
  | free hmm hrem hn hw => simp [hn, hmm, Notifier.owed]
  | live m' hmm hrem hn hw =>
    rcases hn with hn | hn
    · simp [hn, hmm, Notifier.owed]
    · simp [hn, Notifier.inCallback] at hcallback
  | cleared m' pid comm hmm hrem hn hw => simp [hn, Notifier.inCallback] at hcallback
  | queued m' hmm hrem hrel hn hw => simp [hw] at hwork
  | dropped m' hmm hrem hn hw => simp [hw] at hwork
  | _ => exact absurd rfl (hcall _ _ _)

end Accounting

/-- `ac_prot_count` is exact and is positive whenever `ac_mmu_release` is about to decrement it.
On every slot the notifier calls alternate `register i m`, `unregister i m`; a slot is claimed
only when nothing is outstanding on it; and everything in flight can be run to its end, where
exactly the published entries are still registered. -/
theorem registry_accounting [DecidableEq M] {as : List (RegAct M)} {s : Registry M}
    (h : run Registry.step Registry.init as = some s) :
    s.count.toNat = (published s.prots).card ∧
    (∀ i m, s.notifier i = .releasing m → (s.prots i).mm = .mm m → 0 < s.count.toNat) ∧
    (∀ i, run (NotifierEv.apply i) none s.log = some (s.notifier i).owed) ∧
    (∀ m i, addScan s.prots m (List.finRange acProtMax) none = .free (some i) →
      run (NotifierEv.apply i) none s.log = some none) ∧
    (∃ bs s', (∀ b ∈ bs, RegAct.isPending b = true) ∧ run Registry.step s bs = some s' ∧
      s'.Quiet) ∧
    (s.Quiet → ∀ i m, run (NotifierEv.apply i) none s.log = some (some m) ↔
      (s.prots i).mm = .mm m) := by
  have hinv := Registry.Inv.init.of_run h
  obtain ⟨owner, howned⟩ := hinv.owned
  refine ⟨hinv.counted, fun i m hn hmm => ?_, hinv.paired, fun m i hscan => ?_, ?_, ?_⟩
  · rw [hinv.counted]
    exact Finset.card_pos.mpr ⟨i, mem_published.mpr ⟨m, hmm⟩⟩
  · have hi := howned.slots i
    rw [hi.owner_free (isFree_of_addScan hscan)] at hi
    cases hi with
    | free _ _ hn _ =>
      rw [hinv.paired i, hn]
      rfl
  · obtain ⟨bs, s', hbs, hrun, -, hq⟩ := hinv.exists_quiet_run
    exact ⟨bs, s', hbs, hrun, hq⟩
  · intro hq i m
    rw [hinv.paired i, Option.some_inj]
    exact howned.owed_iff_of_quiet hq i m

theorem registry_accounting_cancelledAdd :
    ∃ s, run Registry.step Registry.init
        (.addEnter 7 100 "game" false :: .delEnter 7 :: cancelledAdd) = some s ∧
      s.count.toNat = (published s.prots).card := by
  have hstart : Registry.init.step (.addEnter 7 100 "game" false) =
      some (Registry.init.addEnter 7 100 "game" false) := rfl
  have hrun := run_cons_eq_some.mpr ⟨_, hstart, (Option.some_get cancelledAdd_runs).symm⟩
  exact ⟨_, hrun, (registry_accounting hrun).1⟩

/-! ### What a 0 from `ac_add_prot_mm` promises -/

/-- The action removes the protection of the mm, or starts to: a delete, the exit of the mm, the
unload of the module. -/
def RegAct.unprotects [DecidableEq M] (m : M) : RegAct M → Bool
  | .delEnter m' => m' == m
  | .exit m' => m' == m
  | .clearEnter _ => true
  | _ => false

/-- Slot `i` is published for the mm, and nobody has started to remove it. -/
structure Registry.LiveAt (s : Registry M) (i : Slot) (m : M) : Prop where
  mm : (s.prots i).mm = .mm m
  removing : (s.prots i).removing = false
  notifier : s.notifier i = .hashed m

/-- Slot `i` is claimed for the mm, and the claim is not cancelled. -/
structure Registry.ClaimAt (s : Registry M) (i : Slot) (m : M) : Prop where
  mm : (s.prots i).mm = .reserved
  claiming : (s.prots i).claiming = some m
  cancel : (s.prots i).cancel = false

section Promise

variable {s s' : Registry M} {owner : Slot → Owner M} {m : M} {i k : Slot} {c : ℕ}
variable {e : AcProtEntry M} {n : Notifier M}

lemma Registry.LiveAt.frame (h : s.LiveAt i m) (hprots : s'.prots i = s.prots i)
    (hnot : s'.notifier i = s.notifier i) : s'.LiveAt i m :=
  ⟨hprots ▸ h.mm, hprots ▸ h.removing, hnot ▸ h.notifier⟩

lemma Registry.ClaimAt.frame (h : s.ClaimAt i m) (hprots : s'.prots i = s.prots i) :
    s'.ClaimAt i m :=
  ⟨hprots ▸ h.mm, hprots ▸ h.claiming, hprots ▸ h.cancel⟩

/-- The slot of a call is not a live entry. -/
lemma Registry.LiveAt.ne_of_call (hl : s.LiveAt i m) (h : s.Owned owner) {call : Call M}
    (hc : s.calls[c]? = some call) (hslot : call.pc.slot = some k) : i ≠ k := by
  rintro rfl
  have hlive := (h.slots i).owner_live hl.mm hl.removing
  rw [h.calls.held c call i hc hslot] at hlive
  cases hlive

/-- No published entry of the mm is on its way out by an exit of the mm. -/
def Registry.NotExiting (s : Registry M) (m : M) : Prop :=
  ∀ i, (s.prots i).mm = .mm m → (s.prots i).removing = false → s.LiveAt i m

lemma Registry.NotExiting.step_of_removing (hs : s.NotExiting m)
    (hprots : s'.prots = Function.update s.prots k { s.prots k with removing := true })
    (hnot : s'.notifier = s.notifier) : s'.NotExiting m := by
  intro i hmm hrem
  have hik : i ≠ k := by
    rintro rfl
    simp [hprots] at hrem
  rw [hprots, Function.update_of_ne hik] at hmm hrem
  exact (hs i hmm hrem).frame (by rw [hprots, Function.update_of_ne hik]) (by rw [hnot])

variable [DecidableEq M] {a : RegAct M}

/-- A live entry stays as long as nobody deletes it and its mm does not exit. -/
lemma Registry.LiveAt.step (hl : s.LiveAt i m) (h : s.Owned owner) (ha : a.unprotects m = false)
    (hstep : s.step a = some s') : s'.LiveAt i m := by
  have hne : ∀ k : Slot, (s.prots k).mm ≠ .mm m → i ≠ k := by
    rintro k hk rfl
    exact hk hl.mm
  -- a callback is running at slot `k`, or has run
  have hquiet : ∀ k : Slot, s.notifier k ≠ .hashed m → i ≠ k := by
    rintro k hk rfl
    exact hk hl.notifier
  cases Registry.rule_of_step hstep with
  | addPublished m' pid comm jit k hmm hrem =>
    by_cases hik : i = k
    · subst hik
      exact ⟨by simp [hl.mm], by simp [hl.removing], hl.notifier⟩
    · exact hl.frame (Function.update_of_ne hik _ _) rfl
  | addJoined | addFull | registerFail => exact hl.frame rfl rfl
  | addClaim m' pid comm jit k hnone hfree =>
    exact hl.frame (Function.update_of_ne (hne k (by simp [hfree.1])) _ _) rfl
  | registerOk _ _ k hc hpc | unregBegin _ _ k _ hc hpc | unregReturn _ _ k hc hpc =>
    exact hl.frame rfl (Function.update_of_ne (hl.ne_of_call h hc (by rw [hpc]; rfl)) _ _)
  | settleFail _ _ k _ hc hpc | settleCancel _ _ k hc hpc | settlePublish _ _ k _ _ _ hc hpc
  | finish _ _ k hc hpc =>
    exact hl.frame (Function.update_of_ne (hl.ne_of_call h hc (by rw [hpc]; rfl)) _ _) rfl
  | delFound m' k hmm hrem =>
    refine hl.frame (Function.update_of_ne (hne k ?_) _ _) rfl
    rw [hmm]
    rintro ⟨⟩
    simp [RegAct.unprotects] at ha
  | delNone m' hnone =>
    refine hl.frame ?_ rfl
    simp [cancelClaims, hl.mm]
  | clearFound | clearSkip => cases ha
  | exit m' hpin =>
    refine hl.frame rfl ?_
    have hm : m ≠ m' := by
      rintro rfl
      simp [RegAct.unprotects] at ha
    simp [hl.notifier, hm]
  | releaseCaller k m' hn | releaseOrganic k m' hn | queueRelease k m' _ _ hn =>
    have hik := hquiet k (by simp [hn])
    exact hl.frame (Function.update_of_ne hik _ _) (Function.update_of_ne hik _ _)
  | releaseStale k m' hn =>
    exact hl.frame rfl (Function.update_of_ne (hquiet k (by simp [hn])) _ _)
  | workUnregister k m' hw hrel hn =>
    refine hl.frame rfl (Function.update_of_ne (hquiet k fun hh => ?_) _ _)
    simp [hh, Notifier.quiet] at hn
  | workFinish k hw =>
    have hi := h.slots k
    obtain ⟨m', ho⟩ := hi.owner_work (by simp [hw])
    rw [ho] at hi
    exact hl.frame (Function.update_of_ne (hne k (by simp [hi.entry_of_exit.1])) _ _) rfl

/-- What can become of an uncancelled claim: it stays, with the call that holds it and with those
that rely on it, or it is published, or its registration has failed. -/
lemma Registry.ClaimAt.step (hcl : s.ClaimAt i m) (h : s.Owned owner)
    (ha : a.unprotects m = false) (hstep : s.step a = some s') :
    (s'.ClaimAt i m ∧ (s.joined i = true → s'.joined i = true) ∧
      ∀ c, CallAt s.calls c i → CallAt s'.calls c i) ∨
    s'.LiveAt i m ∨
    ∃ c call ret, a = .addSettle c ∧ s.calls[c]? = some call ∧ call.pc = .registered i ret ∧
      ret ≠ 0 ∧ s'.calls[c]? = some { call with pc := .returned ret } ∧
      (s'.prots i).mm = .null := by
  have hne : ∀ k : Slot, (s.prots k).mm ≠ .reserved → i ≠ k := by
    rintro k hk rfl
    exact hk hcl.mm
  -- a step at another slot that moves no call on
  have hother : ∀ {k : Slot} {e : AcProtEntry M}, (s.prots k).mm ≠ .reserved →
      (Function.update s.prots k e) i = s.prots i := fun hk => Function.update_of_ne (hne _ hk) _ _
  cases Registry.rule_of_step hstep with
  | addPublished m' pid comm jit k hmm hrem =>
    exact .inl ⟨hcl.frame (hother (by simp [hmm])), id, fun c hc => hc.append _⟩
  | addJoined m' pid comm jit k hmm hclaim hcancel =>
    refine .inl ⟨hcl.frame rfl, fun hj => ?_, fun c hc => hc.append _⟩
    by_cases hik : i = k
    · subst hik
      simp
    · simp [Function.update_of_ne hik, hj]
  | addFull => exact .inl ⟨hcl.frame rfl, id, fun c hc => hc.append _⟩
  | addClaim m' pid comm jit k hnone hfree =>
    have hik := hne k (by simp [hfree.1])
    refine .inl ⟨hcl.frame (Function.update_of_ne hik _ _), fun hj => ?_, fun c hc => hc.append _⟩
    simp [Function.update_of_ne hik, hj]
  | registerOk _ _ k hc hpc | registerFail _ _ k _ hc hpc | unregReturn _ _ k hc hpc =>
    exact .inl ⟨hcl.frame rfl, id, fun d hd => hd.set hc (by rw [hpc]; rfl) fun _ => rfl⟩
  | settleFail c call k ret hc hpc hret =>
    by_cases hik : i = k
    · subst hik
      refine .inr (.inr ⟨c, call, ret, rfl, hc, hpc, hret, ?_, by simp⟩)
      exact List.getElem?_set_self (List.getElem?_eq_some_iff.mp hc).1
    · refine .inl ⟨hcl.frame (Function.update_of_ne hik _ _), id, fun d hd => ?_⟩
      exact hd.set hc (by rw [hpc]; rfl) fun h => absurd h hik
  | settleCancel c call k hc hpc hcancel =>
    have hik : i ≠ k := by
      rintro rfl
      simp [hcl.cancel] at hcancel
    refine .inl ⟨hcl.frame (Function.update_of_ne hik _ _), id, fun d hd => ?_⟩
    exact hd.set hc (by rw [hpc]; rfl) fun h => absurd h hik
  | settlePublish c call k pid comm jit hc hpc hkind hcancel =>
    by_cases hik : i = k
    · subst hik
      have hi := h.slot_of_call hc (i := i) (by rw [hpc]; rfl)
      rw [hpc] at hi
      cases hi with
      | registered _ _ _ _ hclaim hrem hn _ =>
      obtain rfl : call.mm = m := Option.some.inj (hclaim.symm.trans hcl.claiming)
      exact .inr (.inl ⟨by simp, by simp [hrem], by simp [hn]⟩)
    · refine .inl ⟨hcl.frame (Function.update_of_ne hik _ _), id, fun d hd => ?_⟩
      exact hd.set hc (by rw [hpc]; rfl) fun h => absurd h hik
  | delFound m' k hmm hrem =>
    exact .inl ⟨hcl.frame (hother (by simp [hmm])), id, fun c hc => hc.append _⟩
  | delNone m' hnone =>
    have hm : m ≠ m' := by
      rintro rfl
      simp [RegAct.unprotects] at ha
    refine .inl ⟨hcl.frame ?_, id, fun c hc => hc.append _⟩
    simp [cancelClaims, hcl.claiming, hm]
  | clearFound | clearSkip => cases ha
  | unregBegin | exit | releaseStale | workUnregister =>
    exact .inl ⟨hcl.frame rfl, id, fun c hc => hc⟩
  | finish c call k hc hpc =>
    have hi := h.slot_of_call hc (i := k) (by rw [hpc]; rfl)
    rw [hpc] at hi
    cases hi with
    | unregistered _ _ hmm _ _ _ =>
    have hik := hne k (by simp [hmm])
    refine .inl ⟨hcl.frame (Function.update_of_ne hik _ _), id, fun d hd => ?_⟩
    exact hd.set hc (by rw [hpc]; rfl) fun h => absurd h hik
  | releaseCaller k m' hn hmm | releaseOrganic k m' hn hmm =>
    exact .inl ⟨hcl.frame (hother (by simp [hmm])), id, fun c hc => hc⟩
  | queueRelease k m' pid comm hn =>
    have hi := h.slots k
    rw [hi.owner_cleared hn] at hi
    exact .inl ⟨hcl.frame (hother (by simp [hi.entry_of_exit.1])), id, fun c hc => hc⟩
  | workFinish k hw =>
    have hi := h.slots k
    obtain ⟨m', ho⟩ := hi.owner_work (by simp [hw])
    rw [ho] at hi
    exact .inl ⟨hcl.frame (hother (by simp [hi.entry_of_exit.1])), id, fun c hc => hc⟩

/-- A call that has returned stays returned. -/
lemma Registry.returned_of_step {call : Call M} (hc : s.calls[c]? = some call)
    (hpc : call.pc.slot = none) (hstep : s.step a = some s') : s'.calls[c]? = some call := by
  rcases Registry.calls_of_step hstep with hcalls | ⟨new, hcalls⟩ | ⟨d, call', pc, hd, hrun, hcalls⟩
  · rw [hcalls, hc]
  · rw [hcalls]
    exact CallsOk.getElem?_snoc_of_some hc
  · have hdc : d ≠ c := by
      rintro rfl
      cases hc.symm.trans hd
      rw [CallPc.slot_eq_none_iff.mp hpc] at hrun
      cases hrun
    rw [hcalls, List.getElem?_set_ne hdc, hc]

/-- Why call `c`, an `ac_add_prot_mm` of `m`, may answer 0: an entry is live, or a claim that it
holds or has joined is still open. The alternative is that it has already answered an error. -/
def Registry.Promised (s : Registry M) (m : M) (c : ℕ) : Prop :=
  (∃ i, s.LiveAt i m) ∨
  (∃ i, s.ClaimAt i m ∧ (s.joined i = true ∨ CallAt s.calls c i)) ∨
  ∃ call ret, s.calls[c]? = some call ∧ call.pc = .returned ret ∧ ret ≠ 0

/-- A registration that has failed is settled only if no call has joined its claim. -/
def Registry.failsUnjoined (s : Registry M) : RegAct M → Bool
  | .addSettle c =>
    match (s.calls[c]?).map Call.pc with
    | some (.registered i ret) => ret == 0 || !s.joined i
    | _ => true
  | _ => true

lemma Registry.Promised.step (hp : s.Promised m c) (h : s.Owned owner)
    (ha : a.unprotects m = false) (hok : s.failsUnjoined a = true)
    (hstep : s.step a = some s') : s'.Promised m c := by
  rcases hp with ⟨i, hl⟩ | ⟨i, hcl, hwhy⟩ | ⟨call, ret, hc, hpc, hret⟩
  · exact .inl ⟨i, hl.step h ha hstep⟩
  · rcases hcl.step h ha hstep with ⟨hcl', hj, hat⟩ | hl |
      ⟨d, call, ret, rfl, hd, hpc, hret, hd', -⟩
    · exact .inr (.inl ⟨i, hcl', hwhy.imp hj (hat c)⟩)
    · exact .inl ⟨i, hl⟩
    · -- the registration failed, so nobody has joined and the claim is the call's own
      have hjoined : s.joined i = false := by
        simpa [Registry.failsUnjoined, hd, hpc, hret] using hok
      obtain ⟨call', hc, hslot⟩ := hwhy.resolve_left (by simp [hjoined])
      have hboth := (h.calls.held c call' i hc hslot).symm.trans
        (h.calls.held d call i hd (by rw [hpc]; rfl))
      obtain rfl : c = d := (Owner.call.inj hboth).1
      exact .inr (.inr ⟨_, ret, hd', rfl, hret⟩)
  · exact .inr (.inr ⟨call, ret, Registry.returned_of_step hc (by rw [hpc]; rfl) hstep, hpc, hret⟩)

/-- Only the exit of an mm starts the callback of a published entry. -/
lemma Registry.NotExiting.step (hs : s.NotExiting m) (h : s.Owned owner) (ha : a ≠ .exit m)
    (hstep : s.step a = some s') : s'.NotExiting m := by
  cases hun : a.unprotects m with
  | false =>
    intro i hmm hrem
    rcases h.liveFor_of_step hstep (.inl ⟨hmm, hrem⟩) with
      (⟨hmm', hrem'⟩ | ⟨hmm', hcl, hcan⟩) | ⟨-, -, hres, -⟩
    · exact (hs i hmm' hrem').step h hun hstep
    · rcases Registry.ClaimAt.step ⟨hmm', hcl, hcan⟩ h hun hstep with ⟨hcl', -⟩ | hl |
        ⟨-, -, -, -, -, -, -, -, hnull⟩
      · exact absurd (hmm.symm.trans hcl'.mm) nofun
      · exact hl
      · exact absurd (hmm.symm.trans hnull) nofun
    · exact absurd (hmm.symm.trans hres) nofun
  | true =>
    cases Registry.rule_of_step hstep with
    | delFound m' k hmm hrem => exact hs.step_of_removing rfl rfl
    | clearFound m' k hmm hrem => exact hs.step_of_removing rfl rfl
    | clearSkip => exact hs
    | delNone m' hnone =>
      intro i hmm hrem
      have hframe : cancelClaims s.prots m' i = s.prots i := by
        simp only [Registry.newCall_prots, cancelClaims] at hmm ⊢
        split_ifs at hmm ⊢ with hclaim
        · exact absurd (hmm.symm.trans hclaim.1) nofun
        · rfl
      simp only [Registry.newCall_prots, hframe] at hmm hrem
      exact (hs i hmm hrem).frame hframe rfl
    | exit m' hpin => exact absurd (by simpa [RegAct.unprotects] using hun) ha
    | _ => cases hun

/-- What the first critical section of `ac_add_prot_mm` promises. -/
lemma Registry.NotExiting.promised_addEnter (hs : s.NotExiting m) {pid : ℤ} {comm : String}
    {jit : Bool} (hstep : s.step (.addEnter m pid comm jit) = some s') :
    s'.Promised m s.calls.length := by
  cases Registry.rule_of_step hstep with
  | addPublished _ _ _ _ i hmm hrem =>
    refine .inl ⟨i, ?_⟩
    have hl := hs i hmm hrem
    exact ⟨by simp [hmm], by simp [hrem], hl.notifier⟩
  | addJoined _ _ _ _ i hmm hclaim hcancel =>
    exact .inr (.inl ⟨i, ⟨hmm, hclaim, hcancel⟩, .inl (by simp)⟩)
  | addFull _ _ _ _ hfull =>
    refine .inr (.inr ⟨_, errNospc, List.getElem?_concat_length, rfl, by decide⟩)
  | addClaim _ _ _ _ i hnone hfree =>
    refine .inr (.inl ⟨i, ⟨by simp, by simp, by simp⟩, .inr ?_⟩)
    exact ⟨_, List.getElem?_concat_length, rfl⟩

/-- With every call returned, a call that returned 0 was told the truth. -/
lemma Registry.Promised.protected (hp : s.Promised m c) (h : s.Owned owner)
    (hret : ∀ call ∈ s.calls, call.pc.isReturned = true)
    (hzero : (s.calls[c]?).map Call.pc = some (.returned 0)) :
    acIsProtectedMm s.prots (some m) = true := by
  rw [acIsProtectedMm_some]
  rcases hp with ⟨i, hl⟩ | ⟨i, hcl, -⟩ | ⟨call, ret, hc, hpc, hne⟩
  · exact ⟨i, hl.mm⟩
  · obtain ⟨d, m', pc, ho, -⟩ := (h.slots i).owner_reserved hcl.mm
    obtain ⟨hslot, kind, hd⟩ := h.calls.holder i d m' pc ho
    have hdone := hret _ (List.mem_of_getElem? hd)
    rw [← CallPc.slot_eq_none_iff] at hdone
    exact absurd (hslot.symm.trans hdone) nofun
  · simp [hc, hpc] at hzero
    exact absurd hzero hne

end Promise

/-- Along every run in which no failed registration is settled after another call has joined its
claim, an `ac_add_prot_mm` that returns 0 leaves the mm protected once every call has returned,
provided the mm does not exit and nobody deletes it after the call has begun. -/
theorem addProtMm_zero_protected [DecidableEq M] {as bs : List (RegAct M)} {s s' : Registry M}
    {m : M} {pid : ℤ} {comm : String} {jit : Bool}
    (hrun : run Registry.step Registry.init as = some s) (has : ∀ a ∈ as, a ≠ .exit m)
    (hadd : run (restrict Registry.failsUnjoined Registry.step) s
      (.addEnter m pid comm jit :: bs) = some s')
    (hbs : ∀ a ∈ bs, a.unprotects m = false)
    (hret : ∀ call ∈ s'.calls, call.pc.isReturned = true)
    (hzero : (s'.calls[s.calls.length]?).map Call.pc = some (.returned 0)) :
    acIsProtectedMm s'.prots (some m) = true := by
  have hbefore : s.Inv ∧ s.NotExiting m := by
    refine run_invariant_of_forall (P := fun t => t.Inv ∧ t.NotExiting m)
      (fun t a t' ha ht hstep => ?_) has ⟨Registry.Inv.init, nofun⟩ hrun
    obtain ⟨owner, howned⟩ := ht.1.owned
    exact ⟨ht.1.step hstep, ht.2.step howned ha hstep⟩
  obtain ⟨t, henter, hrest⟩ := run_cons_eq_some.mp hadd
  obtain ⟨-, henter⟩ := restrict_eq_some.mp henter
  have hafter : s'.Inv ∧ s'.Promised m s.calls.length := by
    refine run_invariant_of_forall (P := fun t => t.Inv ∧ t.Promised m s.calls.length)
      (fun t a t' ha ht hstep => ?_) hbs
      ⟨hbefore.1.step henter, hbefore.2.promised_addEnter henter⟩ hrest
    obtain ⟨hok, hstep⟩ := restrict_eq_some.mp hstep
    obtain ⟨owner, howned⟩ := ht.1.owned
    exact ⟨ht.1.step hstep, ht.2.step howned ha hok hstep⟩
  obtain ⟨owner, howned⟩ := hafter.1.owned
  exact hafter.2.protected howned hret hzero

/-- A second call joins the claim of the first, whose registration then succeeds. -/
def joinedAdd : List (RegAct ℕ) := [.addEnter 7 101 "game" false, .register 0 0, .addSettle 0]

lemma joinedAdd_runs : (run (restrict Registry.failsUnjoined Registry.step) Registry.init
    (.addEnter 7 100 "game" false :: joinedAdd)).isSome = true := by
  decide +kernel

theorem addProtMm_zero_protected_joinedAdd :
    ∃ s, run Registry.step Registry.init (.addEnter 7 100 "game" false :: joinedAdd) = some s ∧
      acIsProtectedMm s.prots (some 7) = true := by
  have hrun := (Option.some_get joinedAdd_runs).symm
  refine ⟨_, run_of_run_restrict hrun,
    addProtMm_zero_protected (run_nil _) (List.forall_mem_nil _) hrun ?_ ?_ ?_⟩
  · decide
  · decide +kernel
  · decide +kernel

/-- A second call joins the claim of the first and returns 0. The registration of the first then
fails with `-ENOMEM`, and nothing is left. -/
def joinedFailure : List (RegAct ℕ) :=
  [.addEnter 7 100 "game" false, .addEnter 7 101 "game" false, .register 0 (-12), .addSettle 0]

lemma joinedFailure_runs :
    (run Registry.step Registry.init joinedFailure).isSome = true := by
  decide +kernel

theorem addProtMm_zero_unprotected :
    ∃ s, run Registry.step Registry.init joinedFailure = some s ∧
      (∀ call ∈ s.calls, call.pc.isReturned = true) ∧
      (s.calls[1]?).map Call.pc = some (.returned 0) ∧
      acIsProtectedMm s.prots (some 7) = false := by
  refine ⟨_, (Option.some_get joinedFailure_runs).symm, ?_, ?_, ?_⟩ <;> decide +kernel

end Anticheat
