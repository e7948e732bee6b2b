import Anticheat.Registry.Basic

/-!
# What a registry step can do

`Registry.step` is inverted once into the family `Registry.Rule`, one rule for each branch of the
code. Later modules reason from the rules and do not unfold the step function.
-/

namespace Anticheat

variable {M : Type}

/-- A slot is live for an mm when it is published for it and not being removed, or claimed for it
and not cancelled. -/
def AcProtEntry.LiveFor (m : M) (e : AcProtEntry M) : Prop :=
  (e.mm = .mm m ∧ e.removing = false) ∨
    (e.mm = .reserved ∧ e.claiming = some m ∧ e.cancel = false)

/-- A slot that the free-slot test of `ac_add_prot_mm` accepts. -/
def AcProtEntry.IsFree (e : AcProtEntry M) : Prop := e.mm = .null ∧ e.removing = false

/-- The slot a call is working on. -/
def CallPc.slot : CallPc → Option Slot
  | .registering i => some i
  | .registered i _ => some i
  | .unregistering i => some i
  | .unregistered i => some i
  | .returned _ => none

lemma CallPc.slot_eq_none_iff {pc : CallPc} : pc.slot = none ↔ pc.isReturned = true := by
  cases pc <;> simp [CallPc.slot, CallPc.isReturned]

/-! ### The scans -/

section Scan

variable [DecidableEq M] {prots : Slot → AcProtEntry M} {m : M}

/-- What the result of the scan says about the slots it has visited. -/
def AddScan.Sound (prots : Slot → AcProtEntry M) (m : M) (is : List Slot) (slot : Option Slot) :
    AddScan → Prop
  | .published i => (prots i).mm = .mm m ∧ (prots i).removing = false
  | .claimed i =>
    (prots i).mm = .reserved ∧ (prots i).claiming = some m ∧ (prots i).cancel = false
  | .free found =>
    (∀ i ∈ is, ¬ (prots i).LiveFor m) ∧ (∀ i, found = some i → slot = some i ∨ (prots i).IsFree) ∧
      (found = none → slot = none ∧ ∀ i ∈ is, ¬ (prots i).IsFree)

lemma addScan_sound (prots : Slot → AcProtEntry M) (m : M) (is : List Slot) (slot : Option Slot) :
    (addScan prots m is slot).Sound prots m is slot := by
  induction is generalizing slot with
  | nil =>
    simp only [addScan, AddScan.Sound]
    exact ⟨nofun, fun i hi => .inl hi, fun h => ⟨h, nofun⟩⟩
  | cons i is ih =>
    unfold addScan
    split_ifs with hp hc hf
    · simpa [AddScan.Sound] using hp
    · simpa [AddScan.Sound] using hc
    · have hlive : ¬ (prots i).LiveFor m := by simp_all [AcProtEntry.LiveFor]
      have hfree : (prots i).IsFree := by simp_all [AcProtEntry.IsFree]
      have hi := ih (some i)
      cases hscan : addScan prots m is (some i) with
      | published j => simpa [hscan, AddScan.Sound] using hi
      | claimed j => simpa [hscan, AddScan.Sound] using hi
      | free found =>
        obtain ⟨hnone, hfound, hfull⟩ : AddScan.Sound prots m is (some i) (.free found) :=
          hscan ▸ hi
        refine ⟨by simpa [hlive] using hnone, fun j hj => ?_, fun h => ?_⟩
        · rcases hfound j hj with h | h
          · cases h
            exact .inr hfree
          · exact .inr h
        · simpa using (hfull h).1
    · have hlive : ¬ (prots i).LiveFor m := by simp_all [AcProtEntry.LiveFor]
      have hi := ih slot
      cases hscan : addScan prots m is slot with
      | published j => simpa [hscan, AddScan.Sound] using hi
      | claimed j => simpa [hscan, AddScan.Sound] using hi
      | free found =>
        obtain ⟨hnone, hfound, hfull⟩ : AddScan.Sound prots m is slot (.free found) := hscan ▸ hi
        refine ⟨by simpa [hlive] using hnone, hfound, fun h => ⟨(hfull h).1, ?_⟩⟩
        have hfree : ¬ (prots i).IsFree := by
          intro hfree
          exact hf ⟨hfree.1, by simp [hfree.2], (hfull h).1⟩
        simpa [hfree] using (hfull h).2

/-- The slot that `ac_add_prot_mm` claims. -/
lemma isFree_of_addScan {i : Slot}
    (h : addScan prots m (List.finRange acProtMax) none = .free (some i)) : (prots i).IsFree := by
  have hsound := addScan_sound prots m (List.finRange acProtMax) none
  rw [h] at hsound
  exact (hsound.2.1 i rfl).resolve_left nofun

lemma delScan_eq_some {i : Slot} (h : delScan prots m = some i) :
    (prots i).mm = .mm m ∧ (prots i).removing = false := by
  simpa [delScan] using List.find?_some h

lemma delScan_eq_none (h : delScan prots m = none) (i : Slot) :
    ¬ ((prots i).mm = .mm m ∧ (prots i).removing = false) := by
  have := List.find?_eq_none.mp h i (List.mem_finRange i)
  simpa using this

@[simp] lemma acIsProtectedMm_some :
    acIsProtectedMm prots (some m) = true ↔ ∃ i, (prots i).mm = .mm m := by
  simp [acIsProtectedMm]

end Scan

/-! ### The rules -/

/-- One rule for each branch of each action, with its guard and its result. -/
inductive Registry.Rule [DecidableEq M] (s : Registry M) : RegAct M → Registry M → Prop where
  | addPublished (m : M) (pid : ℤ) (comm : String) (jit : Bool) (i : Slot)
      (hmm : (s.prots i).mm = .mm m) (hrem : (s.prots i).removing = false) :
      s.Rule (.addEnter m pid comm jit)
        ((s.setSlot i { s.prots i with jitAllowed := jit }).newCall m (.add pid comm jit)
          (.returned 0))
  | addJoined (m : M) (pid : ℤ) (comm : String) (jit : Bool) (i : Slot)
      (hmm : (s.prots i).mm = .reserved) (hclaim : (s.prots i).claiming = some m)
      (hcancel : (s.prots i).cancel = false) :
      s.Rule (.addEnter m pid comm jit)
        (({ s with joined := Function.update s.joined i true }).newCall m (.add pid comm jit)
          (.returned 0))
  | addFull (m : M) (pid : ℤ) (comm : String) (jit : Bool)
      (hfull : ∀ i, ¬ (s.prots i).LiveFor m ∧ ¬ (s.prots i).IsFree) :
      s.Rule (.addEnter m pid comm jit) (s.newCall m (.add pid comm jit) (.returned errNospc))
  | addClaim (m : M) (pid : ℤ) (comm : String) (jit : Bool) (i : Slot)
      (hnone : ∀ j, ¬ (s.prots j).LiveFor m) (hfree : (s.prots i).IsFree) :
      s.Rule (.addEnter m pid comm jit)
        (({ s.setSlot i { s.prots i with mm := .reserved, claiming := some m, cancel := false } with
          joined := Function.update s.joined i false }).newCall m (.add pid comm jit)
            (.registering i))
  | registerOk (c : ℕ) (call : Call M) (i : Slot) (hc : s.calls[c]? = some call)
      (hpc : call.pc = .registering i) :
      s.Rule (.register c 0) ((s.register i call.mm).setPc c call (.registered i 0))
  | registerFail (c : ℕ) (call : Call M) (i : Slot) (ret : ℤ) (hc : s.calls[c]? = some call)
      (hpc : call.pc = .registering i) (hret : ret ≠ 0) :
      s.Rule (.register c ret) (s.setPc c call (.registered i ret))
  | settleFail (c : ℕ) (call : Call M) (i : Slot) (ret : ℤ) (hc : s.calls[c]? = some call)
      (hpc : call.pc = .registered i ret) (hret : ret ≠ 0) :
      s.Rule (.addSettle c)
        ((s.setSlot i { s.prots i with claiming := none, mm := .null, cancel := false }).setPc c
          call (.returned ret))
  | settleCancel (c : ℕ) (call : Call M) (i : Slot) (hc : s.calls[c]? = some call)
      (hpc : call.pc = .registered i 0) (hcancel : (s.prots i).cancel = true) :
      s.Rule (.addSettle c)
        ((s.setSlot i { s.prots i with
          claiming := none, cancel := false, mm := .null, removing := true }).setPc c call
            (.unregistering i))
  | settlePublish (c : ℕ) (call : Call M) (i : Slot) (pid : ℤ) (comm : String) (jit : Bool)
      (hc : s.calls[c]? = some call) (hpc : call.pc = .registered i 0)
      (hkind : call.kind = .add pid comm jit) (hcancel : (s.prots i).cancel = false) :
      s.Rule (.addSettle c)
        (({ s.setSlot i { s.prots i with
            claiming := none, mm := .mm call.mm, pid := pid, jitAllowed := jit,
            comm := strscpy acMaxComm comm } with
          count := s.count + 1 }).setPc c call (.returned 0))
  | delFound (m : M) (i : Slot) (hmm : (s.prots i).mm = .mm m)
      (hrem : (s.prots i).removing = false) :
      s.Rule (.delEnter m)
        ((s.setSlot i { s.prots i with removing := true }).newCall m .del (.unregistering i))
  | delNone (m : M) (hnone : ∀ i, ¬ ((s.prots i).mm = .mm m ∧ (s.prots i).removing = false)) :
      s.Rule (.delEnter m)
        (({ s with prots := cancelClaims s.prots m }).newCall m .del (.returned 0))
  | clearFound (m : M) (i : Slot) (hmm : (s.prots i).mm = .mm m)
      (hrem : (s.prots i).removing = false) :
      s.Rule (.clearEnter i)
        ((s.setSlot i { s.prots i with removing := true }).newCall m .clear (.unregistering i))
  | clearSkip (i : Slot) : s.Rule (.clearEnter i) s
  | unregBegin (c : ℕ) (call : Call M) (i : Slot) (m : M) (hc : s.calls[c]? = some call)
      (hpc : call.pc = .unregistering i) (hn : s.notifier i = .hashed m) :
      s.Rule (.unregBegin c) (s.setNotifier i (.releasing call.mm))
  | unregReturn (c : ℕ) (call : Call M) (i : Slot) (hc : s.calls[c]? = some call)
      (hpc : call.pc = .unregistering i) (hn : (s.notifier i).quiet = true) :
      s.Rule (.unregReturn c) ((s.unregister i call.mm).setPc c call (.unregistered i))
  | finish (c : ℕ) (call : Call M) (i : Slot) (hc : s.calls[c]? = some call)
      (hpc : call.pc = .unregistered i) :
      s.Rule (.finish c)
        ((s.setSlot i { s.prots i with removing := false }).setPc c call (.returned 0))
  | exit (m : M) (hpin : s.pinnedBy m = false) : s.Rule (.exit m) (s.exitMm m)
  | releaseCaller (i : Slot) (m : M) (hn : s.notifier i = .releasing m)
      (hmm : (s.prots i).mm = .mm m) (hrem : (s.prots i).removing = true) :
      s.Rule (.release i) (s.clearSlot i (.unhashed m))
  | releaseOrganic (i : Slot) (m : M) (hn : s.notifier i = .releasing m)
      (hmm : (s.prots i).mm = .mm m) (hrem : (s.prots i).removing = false) :
      s.Rule (.release i)
        (s.clearSlot i (.cleared m (s.prots i).pid (strscpy acMaxComm (s.prots i).comm)))
  | releaseStale (i : Slot) (m : M) (hn : s.notifier i = .releasing m)
      (hmm : (s.prots i).mm ≠ .mm m) :
      s.Rule (.release i) (s.setNotifier i (.unhashed m))
  | queueRelease (i : Slot) (m : M) (pid : ℤ) (comm : String)
      (hn : s.notifier i = .cleared m pid comm) :
      s.Rule (.queueRelease i) (s.queueRelease i m pid comm)
  | workUnregister (i : Slot) (m : M) (hw : s.work i = .queued)
      (hm : (s.prots i).releaseMm = some m) (hn : (s.notifier i).quiet = true) :
      s.Rule (.workUnregister i) ((s.unregister i m).setWork i .unregistered)
  | workFinish (i : Slot) (hw : s.work i = .unregistered) :
      s.Rule (.workFinish i) (s.releaseFinish i)

section Inversion

variable [DecidableEq M] {s s' : Registry M}

lemma Registry.rule_addEnter (s : Registry M) (m : M) (pid : ℤ) (comm : String) (jit : Bool) :
    s.Rule (.addEnter m pid comm jit) (s.addEnter m pid comm jit) := by
  have hsound := addScan_sound s.prots m (List.finRange acProtMax) none
  unfold Registry.addEnter
  split <;> rename_i hscan <;> rw [hscan] at hsound
  · exact .addPublished m pid comm jit _ hsound.1 hsound.2
  · exact .addJoined m pid comm jit _ hsound.1 hsound.2.1 hsound.2.2
  · refine .addFull m pid comm jit fun i => ⟨hsound.1 i (List.mem_finRange i), ?_⟩
    exact (hsound.2.2 rfl).2 i (List.mem_finRange i)
  · refine .addClaim m pid comm jit _ (fun j => hsound.1 j (List.mem_finRange j)) ?_
    exact (hsound.2.1 _ rfl).resolve_left nofun

lemma Registry.rule_addSettle {c : ℕ} {call : Call M} {i : Slot} {ret pid : ℤ} {comm : String}
    {jit : Bool} (hc : s.calls[c]? = some call) (hpc : call.pc = .registered i ret)
    (hkind : call.kind = .add pid comm jit) :
    s.Rule (.addSettle c) (s.addSettle c call i ret pid comm jit) := by
  simp only [Registry.addSettle]
  by_cases hret : ret = 0
  · subst hret
    rw [if_neg (not_not.mpr rfl)]
    split_ifs with hcancel
    · exact .settleCancel c call i hc hpc hcancel
    · exact .settlePublish c call i pid comm jit hc hpc hkind (Bool.eq_false_of_not_eq_true hcancel)
  · rw [if_pos hret]
    exact .settleFail c call i ret hc hpc hret

lemma Registry.rule_delEnter (s : Registry M) (m : M) : s.Rule (.delEnter m) (s.delEnter m) := by
  unfold Registry.delEnter
  split
  · next i hscan => exact .delFound m i (delScan_eq_some hscan).1 (delScan_eq_some hscan).2
  · next hscan => exact .delNone m (delScan_eq_none hscan)

lemma Registry.rule_clearEnter (s : Registry M) (i : Slot) :
    s.Rule (.clearEnter i) (s.clearEnter i) := by
  unfold Registry.clearEnter
  split
  · next m hmm =>
    split_ifs with hrem
    · exact .clearSkip i
    · exact .clearFound m i hmm (Bool.eq_false_of_not_eq_true hrem)
  · exact .clearSkip i

lemma Registry.rule_mmuRelease {i : Slot} {m : M} (hn : s.notifier i = .releasing m) :
    s.Rule (.release i) (s.mmuRelease i m) := by
  simp only [Registry.mmuRelease]
  split_ifs with hmm hrem
  · exact .releaseCaller i m hn hmm hrem
  · exact .releaseOrganic i m hn hmm (Bool.eq_false_of_not_eq_true hrem)
  · exact .releaseStale i m hn hmm

/-- Every step is an instance of a rule. -/
theorem Registry.rule_of_step {a : RegAct M} (h : s.step a = some s') : s.Rule a s' := by
  cases a with
  | addEnter m pid comm jit =>
    cases h
    exact s.rule_addEnter m pid comm jit
  | register c ret =>
    simp only [Registry.step] at h
    split at h <;> try cases h
    next call hc =>
    split at h <;> try cases h
    next i hpc =>
    split_ifs at h with hret
    · subst hret
      cases h
      exact .registerOk c call i hc hpc
    · cases h
      exact .registerFail c call i ret hc hpc hret
  | addSettle c =>
    simp only [Registry.step] at h
    split at h <;> try cases h
    next call hc =>
    split at h <;> cases h
    next hpc hkind => exact Registry.rule_addSettle hc hpc hkind
  | delEnter m =>
    cases h
    exact s.rule_delEnter m
  | clearEnter i =>
    cases h
    exact s.rule_clearEnter i
  | unregBegin c =>
    simp only [Registry.step] at h
    split at h <;> try cases h
    next call hc =>
    split at h <;> try cases h
    next i hpc =>
    split at h <;> cases h
    next m hn => exact .unregBegin c call i m hc hpc hn
  | unregReturn c =>
    simp only [Registry.step] at h
    split at h <;> try cases h
    next call hc =>
    split at h <;> try cases h
    next i hpc =>
    split_ifs at h with hn
    cases h
    exact .unregReturn c call i hc hpc hn
  | finish c =>
    simp only [Registry.step] at h
    split at h <;> try cases h
    next call hc =>
    split at h <;> cases h
    next i hpc => exact .finish c call i hc hpc
  | exit m =>
    simp only [Registry.step] at h
    split_ifs at h with hpin
    cases h
    exact .exit m (Bool.eq_false_of_not_eq_true hpin)
  | release i =>
    simp only [Registry.step] at h
    split at h <;> cases h
    next m hn => exact Registry.rule_mmuRelease hn
  | queueRelease i =>
    simp only [Registry.step] at h
    split at h <;> cases h
    next m pid comm hn => exact .queueRelease i m pid comm hn
  | workUnregister i =>
    simp only [Registry.step] at h
    split at h <;> try cases h
    next m hw hm =>
    split_ifs at h with hn
    cases h
    exact .workUnregister i m hw hm hn
  | workFinish i =>
    simp only [Registry.step] at h
    split at h <;> cases h
    next hw => exact .workFinish i hw

/-! ### One entry -/

/-- What a step does to the entry of slot `i`. -/
inductive Registry.EntryStep (s : Registry M) (i : Slot) : RegAct M → AcProtEntry M → Prop where
  | same (a : RegAct M) : s.EntryStep i a (s.prots i)
  /-- `ac_add_prot_mm` finds it published -/
  | refreshed (m : M) (pid : ℤ) (comm : String) (jit : Bool) (hmm : (s.prots i).mm = .mm m) :
      s.EntryStep i (.addEnter m pid comm jit) { s.prots i with jitAllowed := jit }
  | claimed (m : M) (pid : ℤ) (comm : String) (jit : Bool) (hfree : (s.prots i).IsFree) :
      s.EntryStep i (.addEnter m pid comm jit)
        { s.prots i with mm := .reserved, claiming := some m, cancel := false }
  | published (c : ℕ) (call : Call M) (pid : ℤ) (comm : String) (jit : Bool)
      (hc : s.calls[c]? = some call) (hpc : call.pc = .registered i 0)
      (hkind : call.kind = .add pid comm jit) (hcancel : (s.prots i).cancel = false) :
      s.EntryStep i (.addSettle c)
        { s.prots i with
          claiming := none, mm := .mm call.mm, pid := pid, jitAllowed := jit,
          comm := strscpy acMaxComm comm }
  | cancelled (m : M) (hmm : (s.prots i).mm = .reserved)
      (hclaim : (s.prots i).claiming = some m) :
      s.EntryStep i (.delEnter m) { s.prots i with cancel := true }
  /-- its claim is given up or its callback clears it -/
  | cleared (a : RegAct M) (e : AcProtEntry M) (hmm : e.mm = .null)
      (hjit : e.jitAllowed = (s.prots i).jitAllowed) : s.EntryStep i a e
  /-- only `removing` and `release_mm` change -/
  | marked (a : RegAct M) (removing : Bool) (releaseMm : Option M) :
      s.EntryStep i a { s.prots i with removing := removing, releaseMm := releaseMm }

theorem Registry.entryStep_of_step {a : RegAct M} (h : s.step a = some s') (i : Slot) :
    s.EntryStep i a (s'.prots i) := by
  have hupd : ∀ {k : Slot} {e : AcProtEntry M}, s.EntryStep k a e →
      s.EntryStep i a (Function.update s.prots k e i) := by
    intro k e he
    by_cases hik : i = k
    · subst hik
      rwa [Function.update_self]
    · rw [Function.update_of_ne hik]
      exact .same a
  cases rule_of_step h with
  | addPublished m pid comm jit k hmm hrem => exact hupd (.refreshed m pid comm jit hmm)
  | addClaim m pid comm jit k hnone hfree => exact hupd (.claimed m pid comm jit hfree)
  | settlePublish c call k pid comm jit hc hpc hkind hcancel =>
    exact hupd (.published c call pid comm jit hc hpc hkind hcancel)
  | delNone m hnone =>
    simp only [newCall_prots, cancelClaims]
    split_ifs with hclaim
    · exact .cancelled m hclaim.1 hclaim.2
    · exact .same _
  | settleFail | settleCancel | releaseCaller | releaseOrganic => exact hupd (.cleared _ _ rfl rfl)
  | delFound | clearFound | finish | queueRelease | workFinish => exact hupd (.marked _ _ _)
  | _ => exact .same _

/-! ### Callbacks and calls -/

/-- `ac_mmu_release` comes to report an exit by clearing an entry that nobody is removing. -/
lemma Registry.cleared_of_step {a : RegAct M} {m : M} {i : Slot} {pid : ℤ} {comm : String}
    (h : s.step a = some s') (hc : s'.notifier i = .cleared m pid comm) :
    s.notifier i = .cleared m pid comm ∨
      (s.notifier i = .releasing m ∧ (s.prots i).mm = .mm m ∧ (s.prots i).removing = false) := by
  have hupd : ∀ {k : Slot} {n : Notifier M},
      Function.update s.notifier k n i = .cleared m pid comm →
      (n = .cleared m pid comm →
        s.notifier k = .releasing m ∧ (s.prots k).mm = .mm m ∧ (s.prots k).removing = false) →
      s.notifier i = .cleared m pid comm ∨
        (s.notifier i = .releasing m ∧ (s.prots i).mm = .mm m ∧ (s.prots i).removing = false) := by
    intro k n hn hk
    by_cases hik : i = k
    · subst hik
      rw [Function.update_self] at hn
      exact .inr (hk hn)
    · rw [Function.update_of_ne hik] at hn
      exact .inl hn
  cases rule_of_step h with
  | exit m' hpin =>
    simp only [Registry.exitMm_notifier] at hc
    split_ifs at hc
    exact .inl hc
  | releaseOrganic k m' hn hmm hrem =>
    refine hupd hc fun heq => ?_
    cases heq
    exact ⟨hn, hmm, hrem⟩
  | registerOk | unregBegin | unregReturn | releaseCaller | releaseStale | queueRelease
  | workUnregister => exact hupd hc nofun
  | _ => exact .inl hc

/-- A step leaves the calls alone, adds one, or moves one on that has not returned. -/
theorem Registry.calls_of_step {a : RegAct M} (h : s.step a = some s') :
    s'.calls = s.calls ∨ (∃ call, s'.calls = s.calls ++ [call]) ∨
      ∃ c call pc, s.calls[c]? = some call ∧ call.pc.isReturned = false ∧
        s'.calls = s.calls.set c { call with pc := pc } := by
  cases rule_of_step h with
  | addPublished | addJoined | addFull | addClaim | delFound | delNone | clearFound =>
    exact .inr (.inl ⟨_, rfl⟩)
  | registerOk _ _ _ hc hpc | registerFail _ _ _ _ hc hpc | settleFail _ _ _ _ hc hpc
  | settleCancel _ _ _ hc hpc | settlePublish _ _ _ _ _ _ hc hpc | unregReturn _ _ _ hc hpc
  | finish _ _ _ hc hpc =>
    exact .inr (.inr ⟨_, _, _, hc, by rw [hpc]; rfl, rfl⟩)
  | _ => exact .inl rfl

end Inversion

end Anticheat
