import Anticheat.Lib.Run
import Anticheat.Registry.Rules
import Mathlib.Data.Finset.Card

/-!
# The invariant of the registry

Every slot is somebody's: free, a live entry, the slot of exactly one call in flight, or left to
the exit path of a process. `Registry.Owned` says who owns each slot and what the entry, its
notifier and its work item then look like. The counter, the uniqueness of live slots and the
pairing of `register` and `unregister` follow along every run.
-/

namespace Anticheat

open Transition

variable {M : Type}

/-! ### Owners -/

inductive Owner (M : Type) where
  | free
  | live (m : M)
  | call (c : ℕ) (m : M) (pc : CallPc)
  /-- `ac_mmu_release` of an exiting process, then the release worker -/
  | exit (m : M)

/-- What an entry, its notifier and its work item look like under an owner. -/
inductive SlotOk (i : Slot) (e : AcProtEntry M) (n : Notifier M) (w : ReleaseWork) :
    Owner M → Prop where
  | free (hmm : e.mm = .null) (hrem : e.removing = false) (hn : n = .idle) (hw : w = .idle) :
      SlotOk i e n w .free
  | live (m : M) (hmm : e.mm = .mm m) (hrem : e.removing = false)
      (hn : n = .hashed m ∨ n = .releasing m) (hw : w = .idle) : SlotOk i e n w (.live m)
  | registering (c : ℕ) (m : M) (hmm : e.mm = .reserved) (hclaim : e.claiming = some m)
      (hrem : e.removing = false) (hn : n = .idle) (hw : w = .idle) :
      SlotOk i e n w (.call c m (.registering i))
  | registered (c : ℕ) (m : M) (ret : ℤ) (hmm : e.mm = .reserved) (hclaim : e.claiming = some m)
      (hrem : e.removing = false) (hn : n = if ret = 0 then .hashed m else .idle)
      (hw : w = .idle) : SlotOk i e n w (.call c m (.registered i ret))
  | unregistering (c : ℕ) (m : M) (hmm : e.mm = .mm m ∨ e.mm = .null)
      (hrem : e.removing = true)
      (hn : n = .hashed m ∨ n = .releasing m ∨ (n = .unhashed m ∧ e.mm = .null))
      (hw : w = .idle) : SlotOk i e n w (.call c m (.unregistering i))
  | unregistered (c : ℕ) (m : M) (hmm : e.mm = .null) (hrem : e.removing = true)
      (hn : n = .idle) (hw : w = .idle) : SlotOk i e n w (.call c m (.unregistered i))
  | cleared (m : M) (pid : ℤ) (comm : String) (hmm : e.mm = .null) (hrem : e.removing = true)
      (hn : n = .cleared m pid comm) (hw : w = .idle) : SlotOk i e n w (.exit m)
  | queued (m : M) (hmm : e.mm = .null) (hrem : e.removing = true)
      (hrel : e.releaseMm = some m) (hn : n = .unhashed m) (hw : w = .queued) :
      SlotOk i e n w (.exit m)
  | dropped (m : M) (hmm : e.mm = .null) (hrem : e.removing = true) (hn : n = .idle)
      (hw : w = .unregistered) : SlotOk i e n w (.exit m)

/-- The owner is a call in flight. -/
def Owner.IsCall : Owner M → Prop
  | .call _ _ _ => True
  | _ => False

namespace SlotOk

variable {i : Slot} {e e' : AcProtEntry M} {n : Notifier M} {w : ReleaseWork} {o : Owner M} {m : M}

lemma congr (h : SlotOk i e n w o) (hmm : e'.mm = e.mm) (hrem : e'.removing = e.removing)
    (hclaim : e'.claiming = e.claiming) (hrel : e'.releaseMm = e.releaseMm) :
    SlotOk i e' n w o := by
  cases h with
  | free h₁ h₂ h₃ h₄ => exact .free (hmm ▸ h₁) (hrem ▸ h₂) h₃ h₄
  | live m h₁ h₂ h₃ h₄ => exact .live m (hmm ▸ h₁) (hrem ▸ h₂) h₃ h₄
  | registering c m h₁ h₂ h₃ h₄ h₅ =>
    exact .registering c m (hmm ▸ h₁) (hclaim ▸ h₂) (hrem ▸ h₃) h₄ h₅
  | registered c m ret h₁ h₂ h₃ h₄ h₅ =>
    exact .registered c m ret (hmm ▸ h₁) (hclaim ▸ h₂) (hrem ▸ h₃) h₄ h₅
  | unregistering c m h₁ h₂ h₃ h₄ => exact .unregistering c m (hmm ▸ h₁) (hrem ▸ h₂) (hmm ▸ h₃) h₄
  | unregistered c m h₁ h₂ h₃ h₄ => exact .unregistered c m (hmm ▸ h₁) (hrem ▸ h₂) h₃ h₄
  | cleared m pid comm h₁ h₂ h₃ h₄ => exact .cleared m pid comm (hmm ▸ h₁) (hrem ▸ h₂) h₃ h₄
  | queued m h₁ h₂ h₃ h₄ h₅ => exact .queued m (hmm ▸ h₁) (hrem ▸ h₂) (hrel ▸ h₃) h₄ h₅
  | dropped m h₁ h₂ h₃ h₄ => exact .dropped m (hmm ▸ h₁) (hrem ▸ h₂) h₃ h₄

lemma owner_free (h : SlotOk i e n w o) (hfree : e.IsFree) : o = .free := by
  obtain ⟨hmm, hrem⟩ := hfree
  cases h <;> simp_all

lemma owner_live (h : SlotOk i e n w o) (hmm : e.mm = .mm m) (hrem : e.removing = false) :
    o = .live m := by
  cases h <;> simp_all

lemma owner_reserved (h : SlotOk i e n w o) (hmm : e.mm = .reserved) :
    ∃ c m pc, o = .call c m pc ∧ e.claiming = some m := by
  cases h <;> simp_all

lemma owner_removing (h : SlotOk i e n w o) (hmm : e.mm = .mm m) (hrem : e.removing = true) :
    ∃ c, o = .call c m (.unregistering i) := by
  cases h <;> simp_all

/-- The callback of an entry that is no longer published for its mm was started by a call. -/
lemma owner_releasing (h : SlotOk i e n w o) (hn : n = .releasing m)
    (hlive : ¬ (e.mm = .mm m ∧ e.removing = false)) :
    ∃ c, o = .call c m (.unregistering i) := by
  cases h <;> simp_all; split_ifs at *

lemma owner_cleared {pid : ℤ} {comm : String} (h : SlotOk i e n w o)
    (hn : n = .cleared m pid comm) : o = .exit m := by
  cases h <;> simp_all; split_ifs at *

lemma owner_work (h : SlotOk i e n w o) (hw : w ≠ .idle) : ∃ m, o = .exit m := by
  cases h <;> simp_all

lemma entry_of_exit (h : SlotOk i e n w (.exit m)) : e.mm = .null ∧ e.removing = true := by
  cases h <;> simp_all

lemma notifier_of_unregistered (h : SlotOk i e n w o) (hw : w = .unregistered) : n = .idle := by
  cases h <;> simp_all

end SlotOk

/-! ### Calls and their slots -/

/-- The call has claimed a slot for its mm and not settled it. -/
def CallPc.claims : CallPc → Bool
  | .registering _ => true
  | .registered _ _ => true
  | _ => false

def CallKind.isAdd : CallKind → Bool
  | .add _ _ _ => true
  | _ => false

/-- The calls in flight and the slots owned by calls correspond to each other. -/
structure CallsOk (calls : List (Call M)) (owner : Slot → Owner M) : Prop where
  /-- an owning call exists and stands where the owner says -/
  holder : ∀ i c m pc, owner i = .call c m pc →
    pc.slot = some i ∧ ∃ kind, calls[c]? = some ⟨m, kind, pc⟩
  /-- a call in flight owns its slot -/
  held : ∀ (c : ℕ) (call : Call M) (i : Slot), calls[c]? = some call → call.pc.slot = some i →
    owner i = .call c call.mm call.pc
  /-- only `ac_add_prot_mm` claims -/
  claims : ∀ (c : ℕ) (call : Call M), calls[c]? = some call → call.pc.claims = true →
    call.kind.isAdd = true

namespace CallsOk

variable {calls : List (Call M)} {owner : Slot → Owner M}

lemma getElem?_snoc {call call' : Call M} {c : ℕ} (h : (calls ++ [call])[c]? = some call') :
    calls[c]? = some call' ∨ c = calls.length ∧ call' = call := by
  rw [List.getElem?_append] at h
  split_ifs at h with hlt
  · exact .inl h
  · rw [List.getElem?_singleton] at h
    split_ifs at h with hc
    exact .inr ⟨by omega, (Option.some.inj h).symm⟩

lemma getElem?_snoc_of_some {call call' : Call M} {c : ℕ} (h : calls[c]? = some call') :
    (calls ++ [call])[c]? = some call' := by
  rw [List.getElem?_append_left (List.getElem?_eq_some_iff.mp h).1, h]

/-- A new call that returns at once owns nothing. -/
lemma append_returned (h : CallsOk calls owner) (m : M) (kind : CallKind) (ret : ℤ) :
    CallsOk (calls ++ [⟨m, kind, .returned ret⟩]) owner where
  holder := fun i c m pc hi => by
    obtain ⟨hslot, k, hk⟩ := h.holder i c m pc hi
    exact ⟨hslot, k, getElem?_snoc_of_some hk⟩
  held := fun c call i hc hslot => by
    rcases getElem?_snoc hc with hc | ⟨-, rfl⟩
    · exact h.held c call i hc hslot
    · cases hslot
  claims := fun c call hc hpc => by
    rcases getElem?_snoc hc with hc | ⟨-, rfl⟩
    · exact h.claims c call hc hpc
    · cases hpc

/-- A new call takes over a slot that no call owns. -/
lemma append (h : CallsOk calls owner) {i : Slot} (hi : ¬ (owner i).IsCall) (call : Call M)
    (hslot : call.pc.slot = some i) (hadd : call.pc.claims = true → call.kind.isAdd = true) :
    CallsOk (calls ++ [call]) (Function.update owner i (.call calls.length call.mm call.pc)) where
  holder := fun j c m pc hj => by
    by_cases hji : j = i
    · subst hji
      rw [Function.update_self] at hj
      cases hj
      exact ⟨hslot, call.kind, by simp⟩
    · rw [Function.update_of_ne hji] at hj
      obtain ⟨hjslot, k, hk⟩ := h.holder j c m pc hj
      exact ⟨hjslot, k, getElem?_snoc_of_some hk⟩
  held := fun c call' j hc hj => by
    rcases getElem?_snoc hc with hc | ⟨rfl, rfl⟩
    · have howner := h.held c call' j hc hj
      have hji : j ≠ i := by
        rintro rfl
        exact hi (by rw [howner]; trivial)
      rw [Function.update_of_ne hji, howner]
    · obtain rfl : i = j := Option.some.inj (hslot.symm.trans hj)
      rw [Function.update_self]
  claims := fun c call' hc hpc => by
    rcases getElem?_snoc hc with hc | ⟨-, rfl⟩
    · exact h.claims c call' hc hpc
    · exact hadd hpc

/-- The call that owns a slot moves on, keeping the slot or giving it up. -/
lemma set (h : CallsOk calls owner) {c : ℕ} {call : Call M} {i : Slot} {pc : CallPc} {o : Owner M}
    (hc : calls[c]? = some call) (hslot : call.pc.slot = some i)
    (ho : (pc.slot = some i ∧ o = .call c call.mm pc) ∨ (pc.slot = none ∧ ¬ o.IsCall))
    (hclaims : pc.claims = true → call.pc.claims = true) :
    CallsOk (calls.set c { call with pc := pc }) (Function.update owner i o) where
  holder := fun j d m pc' hj => by
    have hlt := (List.getElem?_eq_some_iff.mp hc).1
    by_cases hji : j = i
    · subst hji
      rw [Function.update_self] at hj
      rcases ho with ⟨hpc, rfl⟩ | ⟨-, hcall⟩
      · cases hj
        exact ⟨hpc, call.kind, by rw [List.getElem?_set_self hlt]⟩
      · rw [hj] at hcall
        exact absurd trivial hcall
    · rw [Function.update_of_ne hji] at hj
      obtain ⟨hjslot, k, hk⟩ := h.holder j d m pc' hj
      have hdc : c ≠ d := by
        rintro rfl
        rw [hc] at hk
        cases hk
        exact hji (Option.some.inj (hjslot.symm.trans hslot))
      exact ⟨hjslot, k, by rw [List.getElem?_set_ne hdc, hk]⟩
  held := fun d call' j hd hj => by
    by_cases hdc : c = d
    · subst hdc
      rw [List.getElem?_set_self (List.getElem?_eq_some_iff.mp hc).1] at hd
      cases hd
      rcases ho with ⟨hpc, rfl⟩ | ⟨hpc, -⟩
      · obtain rfl : i = j := Option.some.inj (hpc.symm.trans hj)
        rw [Function.update_self]
      · exact absurd (hpc.symm.trans hj) nofun
    · rw [List.getElem?_set_ne hdc] at hd
      have howner := h.held d call' j hd hj
      have hji : j ≠ i := by
        rintro rfl
        have hboth := (h.held c call j hc hslot).symm.trans howner
        exact hdc (Owner.call.inj hboth).1
      rw [Function.update_of_ne hji, howner]
  claims := fun d call' hd hpc => by
    by_cases hdc : c = d
    · subst hdc
      rw [List.getElem?_set_self (List.getElem?_eq_some_iff.mp hc).1] at hd
      cases hd
      exact h.claims c call hc (hclaims hpc)
    · rw [List.getElem?_set_ne hdc] at hd
      exact h.claims d call' hd hpc

/-- A slot that no call owns changes hands without a call. -/
lemma update (h : CallsOk calls owner) {i : Slot} {o : Owner M} (hi : ¬ (owner i).IsCall)
    (ho : ¬ o.IsCall) : CallsOk calls (Function.update owner i o) where
  holder := fun j c m pc hj => by
    by_cases hji : j = i
    · subst hji
      rw [Function.update_self] at hj
      rw [hj] at ho
      exact absurd trivial ho
    · rw [Function.update_of_ne hji] at hj
      exact h.holder j c m pc hj
  held := fun c call j hc hj => by
    have howner := h.held c call j hc hj
    have hji : j ≠ i := by
      rintro rfl
      rw [howner] at hi
      exact hi trivial
    rw [Function.update_of_ne hji, howner]
  claims := h.claims

end CallsOk

/-! ### Ownership is kept by every step -/

/-- `owner` says who owns each slot. -/
structure Registry.Owned (s : Registry M) (owner : Slot → Owner M) : Prop where
  slots : ∀ i, SlotOk i (s.prots i) (s.notifier i) (s.work i) (owner i)
  calls : CallsOk s.calls owner

lemma Registry.Owned.init : (Registry.init : Registry M).Owned fun _ => .free where
  slots := fun _ => .free rfl rfl rfl rfl
  calls := ⟨nofun, nofun, nofun⟩

section Slots

variable {s s' : Registry M} {owner : Slot → Owner M}

/-- A step that touches one slot only. -/
lemma Registry.Owned.slots_update (h : s.Owned owner) (i : Slot) {e : AcProtEntry M}
    {n : Notifier M} {w : ReleaseWork} {o : Owner M}
    (hprots : s'.prots = Function.update s.prots i e)
    (hnot : s'.notifier = Function.update s.notifier i n)
    (hwork : s'.work = Function.update s.work i w) (hi : SlotOk i e n w o) (j : Slot) :
    SlotOk j (s'.prots j) (s'.notifier j) (s'.work j) (Function.update owner i o j) := by
  rw [hprots, hnot, hwork]
  by_cases hji : j = i
  · subst hji
    simpa only [Function.update_self] using hi
  · simpa only [Function.update_of_ne hji] using h.slots j

/-- A step that touches one slot and leaves it with its owner. -/
lemma Registry.Owned.keep (h : s.Owned owner) (i : Slot) {e : AcProtEntry M} {n : Notifier M}
    {w : ReleaseWork} (hprots : s'.prots = Function.update s.prots i e)
    (hnot : s'.notifier = Function.update s.notifier i n)
    (hwork : s'.work = Function.update s.work i w) (hi : SlotOk i e n w (owner i))
    (hcalls : CallsOk s'.calls owner) : ∃ owner', s'.Owned owner' := by
  refine ⟨owner, fun j => ?_, hcalls⟩
  have hj := h.slots_update i hprots hnot hwork hi j
  rwa [Function.update_eq_self] at hj

/-- The slot of a call in flight. -/
lemma Registry.Owned.slot_of_call (h : s.Owned owner) {c : ℕ} {call : Call M} {i : Slot}
    (hc : s.calls[c]? = some call) (hslot : call.pc.slot = some i) :
    SlotOk i (s.prots i) (s.notifier i) (s.work i) (.call c call.mm call.pc) := by
  rw [← h.calls.held c call i hc hslot]
  exact h.slots i

/-- A call that finds a live slot takes it over. -/
lemma Registry.Owned.takeOver (h : s.Owned owner) {m : M} {i : Slot} (hmm : (s.prots i).mm = .mm m)
    (hrem : (s.prots i).removing = false) (kind : CallKind) :
    ∃ owner', ((s.setSlot i { s.prots i with removing := true }).newCall m kind
      (.unregistering i)).Owned owner' := by
  have ho := (h.slots i).owner_live hmm hrem
  have hi := h.slots i
  rw [ho] at hi
  cases hi with
  | live _ _ _ hni hwi =>
  refine ⟨_, h.slots_update i rfl (Function.update_eq_self i s.notifier).symm
    (Function.update_eq_self i s.work).symm
    (.unregistering s.calls.length m (.inl hmm) rfl (hni.imp_right .inl) hwi),
    h.calls.append ?_ ⟨m, kind, .unregistering i⟩ rfl nofun⟩
  rw [ho]
  exact id

end Slots

section Steps

variable [DecidableEq M] {s s' : Registry M} {owner : Slot → Owner M} {a : RegAct M}

lemma SlotOk.cancelClaims {i : Slot} {n : Notifier M} {w : ReleaseWork} {o : Owner M} {m : M}
    {prots : Slot → AcProtEntry M} (h : SlotOk i (prots i) n w o) :
    SlotOk i (cancelClaims prots m i) n w o := by
  unfold Anticheat.cancelClaims
  split_ifs
  · exact h.congr rfl rfl rfl rfl
  · exact h

/-- The exit of an mm that no call pins starts callbacks and changes nobody's ownership. -/
lemma Registry.Owned.exitMm (h : s.Owned owner) {m : M} (hpin : s.pinnedBy m = false) (i : Slot) :
    SlotOk i (s.prots i) ((s.exitMm m).notifier i) (s.work i) (owner i) := by
  rw [Registry.exitMm_notifier]
  split_ifs with hn
  · have hi := h.slots i
    rw [hn] at hi
    generalize ho : owner i = o at hi
    cases hi with
    | live m' hmm hrem hn' hw =>
      obtain rfl : m = m' := by simpa using hn'
      exact .live m hmm hrem (.inr rfl) hw
    | registered c m' ret hmm hclaim hrem hn' hw =>
      -- the claiming call pins its mm
      have hret : ret = 0 := by
        by_contra hret
        simp [hret] at hn'
      obtain rfl : m = m' := by simpa [hret] using hn'
      obtain ⟨-, kind, hcall⟩ := h.calls.holder i c m _ ho
      have hadd := h.calls.claims c _ hcall rfl
      simp only [Registry.pinnedBy, List.any_eq_false] at hpin
      have hnot := hpin _ (List.mem_of_getElem? hcall)
      cases kind with
      | add pid comm jit => simp [Call.pinned, CallPc.isReturned] at hnot
      | del => cases hadd
      | clear => cases hadd
    | unregistering c m' hmm hrem hn' hw =>
      obtain rfl : m = m' := by simpa using hn'
      exact .unregistering c m hmm hrem (.inr (.inl rfl)) hw
    | _ => simp_all
  · exact h.slots i

theorem Registry.Owned.step (h : s.Owned owner) (hstep : s.step a = some s') :
    ∃ owner', s'.Owned owner' := by
  have hn := fun i => (Function.update_eq_self i s.notifier).symm
  have hw := fun i => (Function.update_eq_self i s.work).symm
  have hp := fun i => (Function.update_eq_self i s.prots).symm
  cases Registry.rule_of_step hstep with
  | addPublished m pid comm jit i hmm hrem =>
    exact h.keep i rfl (hn i) (hw i) ((h.slots i).congr rfl rfl rfl rfl)
      (h.calls.append_returned m _ 0)
  | addJoined m pid comm jit i hmm hclaim hcancel =>
    exact ⟨owner, h.slots, h.calls.append_returned m _ 0⟩
  | addFull m pid comm jit hfull => exact ⟨owner, h.slots, h.calls.append_returned m _ _⟩
  | addClaim m pid comm jit i hnone hfree =>
    have ho := (h.slots i).owner_free hfree
    have hi := h.slots i
    rw [ho] at hi
    cases hi with
    | free hmm hrem hni hwi =>
    refine ⟨_, h.slots_update i rfl (hn i) (hw i)
      (.registering s.calls.length m rfl rfl hrem hni hwi),
      h.calls.append ?_ ⟨m, .add pid comm jit, .registering i⟩ rfl fun _ => rfl⟩
    rw [ho]
    exact id
  | registerOk c call i hc hpc =>
    have hi := h.slot_of_call hc (i := i) (by rw [hpc]; rfl)
    rw [hpc] at hi
    cases hi with
    | registering _ _ hmm hclaim hrem hni hwi =>
    exact ⟨_, h.slots_update i (hp i) rfl (hw i) (.registered c call.mm 0 hmm hclaim hrem rfl hwi),
      h.calls.set hc (by rw [hpc]; rfl) (.inl ⟨rfl, rfl⟩) fun _ => by rw [hpc]; rfl⟩
  | registerFail c call i ret hc hpc hret =>
    have hi := h.slot_of_call hc (i := i) (by rw [hpc]; rfl)
    rw [hpc] at hi
    cases hi with
    | registering _ _ hmm hclaim hrem hni hwi =>
    refine ⟨_, h.slots_update i (hp i) (hn i) (hw i)
      (.registered c call.mm ret hmm hclaim hrem ?_ hwi),
      h.calls.set hc (by rw [hpc]; rfl) (.inl ⟨rfl, rfl⟩) fun _ => by rw [hpc]; rfl⟩
    rw [if_neg hret, hni]
  | settleFail c call i ret hc hpc hret =>
    have hi := h.slot_of_call hc (i := i) (by rw [hpc]; rfl)
    rw [hpc] at hi
    cases hi with
    | registered _ _ _ hmm hclaim hrem hni hwi =>
    rw [if_neg hret] at hni
    exact ⟨_, h.slots_update i rfl (hn i) (hw i) (.free rfl hrem hni hwi),
      h.calls.set hc (by rw [hpc]; rfl) (.inr ⟨rfl, id⟩) nofun⟩
  | settleCancel c call i hc hpc hcancel =>
    have hi := h.slot_of_call hc (i := i) (by rw [hpc]; rfl)
    rw [hpc] at hi
    cases hi with
    | registered _ _ _ hmm hclaim hrem hni hwi =>
    exact ⟨_, h.slots_update i rfl (hn i) (hw i)
      (.unregistering c call.mm (.inr rfl) rfl (.inl hni) hwi),
      h.calls.set hc (by rw [hpc]; rfl) (.inl ⟨rfl, rfl⟩) nofun⟩
  | settlePublish c call i pid comm jit hc hpc hkind hcancel =>
    have hi := h.slot_of_call hc (i := i) (by rw [hpc]; rfl)
    rw [hpc] at hi
    cases hi with
    | registered _ _ _ hmm hclaim hrem hni hwi =>
    exact ⟨_, h.slots_update i rfl (hn i) (hw i) (.live call.mm rfl hrem (.inl hni) hwi),
      h.calls.set hc (by rw [hpc]; rfl) (.inr ⟨rfl, id⟩) nofun⟩
  | delFound m i hmm hrem => exact h.takeOver hmm hrem .del
  | delNone m hnone =>
    exact ⟨owner, fun i => (h.slots i).cancelClaims, h.calls.append_returned m _ 0⟩
  | clearFound m i hmm hrem => exact h.takeOver hmm hrem .clear
  | clearSkip i => exact ⟨owner, h⟩
  | unregBegin c call i m hc hpc hni =>
    have hslot : call.pc.slot = some i := by rw [hpc]; rfl
    have hi := h.slot_of_call hc hslot
    rw [hpc] at hi
    cases hi with
    | unregistering _ _ hmm hrem hni' hwi =>
    have ho := h.calls.held c call i hc hslot
    refine h.keep i (hp i) rfl (hw i) ?_ h.calls
    rw [ho, hpc]
    exact .unregistering c call.mm hmm hrem (.inr (.inl rfl)) hwi
  | unregReturn c call i hc hpc hquiet =>
    have hi := h.slot_of_call hc (i := i) (by rw [hpc]; rfl)
    rw [hpc] at hi
    cases hi with
    | unregistering _ _ hmm hrem hni hwi =>
    have hnull : (s.prots i).mm = .null := by
      rcases hni with hni | hni | ⟨-, hnull⟩
      · simp [hni, Notifier.quiet] at hquiet
      · simp [hni, Notifier.quiet] at hquiet
      · exact hnull
    exact ⟨_, h.slots_update i (hp i) rfl (hw i) (.unregistered c call.mm hnull hrem rfl hwi),
      h.calls.set hc (by rw [hpc]; rfl) (.inl ⟨rfl, rfl⟩) nofun⟩
  | finish c call i hc hpc =>
    have hi := h.slot_of_call hc (i := i) (by rw [hpc]; rfl)
    rw [hpc] at hi
    cases hi with
    | unregistered _ _ hmm hrem hni hwi =>
    exact ⟨_, h.slots_update i rfl (hn i) (hw i) (.free hmm rfl hni hwi),
      h.calls.set hc (by rw [hpc]; rfl) (.inr ⟨rfl, id⟩) nofun⟩
  | exit m hpin => exact ⟨owner, h.exitMm hpin, h.calls⟩
  | releaseCaller i m hni hmm hrem =>
    obtain ⟨c, ho⟩ := (h.slots i).owner_removing hmm hrem
    have hi := h.slots i
    rw [ho] at hi
    cases hi with
    | unregistering _ _ _ _ _ hwi =>
    refine h.keep i rfl rfl (hw i) ?_ h.calls
    rw [ho]
    exact .unregistering c m (.inr rfl) rfl (.inr (.inr ⟨rfl, rfl⟩)) hwi
  | releaseOrganic i m hni hmm hrem =>
    have ho := (h.slots i).owner_live hmm hrem
    have hi := h.slots i
    rw [ho] at hi
    cases hi with
    | live _ _ _ _ hwi =>
    refine ⟨_, h.slots_update i rfl rfl (hw i) (.cleared m _ _ rfl rfl rfl hwi),
      h.calls.update ?_ id⟩
    rw [ho]
    exact id
  | releaseStale i m hni hmm =>
    obtain ⟨c, ho⟩ := (h.slots i).owner_releasing hni fun hlive => hmm hlive.1
    have hi := h.slots i
    rw [ho] at hi
    cases hi with
    | unregistering _ _ hmm' hrem _ hwi =>
    have hnull := hmm'.resolve_left hmm
    refine h.keep i (hp i) rfl (hw i) ?_ h.calls
    rw [ho]
    exact .unregistering c m hmm' hrem (.inr (.inr ⟨rfl, hnull⟩)) hwi
  | queueRelease i m pid comm hni =>
    have hi := h.slots i
    have ho := hi.owner_cleared hni
    rw [ho] at hi
    obtain ⟨hmm, hrem⟩ := hi.entry_of_exit
    refine h.keep i rfl rfl rfl ?_ h.calls
    rw [ho]
    exact .queued m hmm hrem rfl rfl rfl
  | workUnregister i m hwi hrel hquiet =>
    have hi := h.slots i
    obtain ⟨m', ho⟩ := hi.owner_work (by simp [hwi])
    rw [ho] at hi
    obtain ⟨hmm, hrem⟩ := hi.entry_of_exit
    refine h.keep i (hp i) rfl rfl ?_ h.calls
    rw [ho]
    exact .dropped m' hmm hrem rfl rfl
  | workFinish i hwi =>
    have hi := h.slots i
    obtain ⟨m', ho⟩ := hi.owner_work (by simp [hwi])
    have hni := hi.notifier_of_unregistered hwi
    rw [ho] at hi
    refine ⟨_, h.slots_update i rfl (hn i) rfl (.free hi.entry_of_exit.1 rfl hni rfl),
      h.calls.update ?_ id⟩
    rw [ho]
    exact id

end Steps

/-! ### Live slots -/

section Live

variable {s s' : Registry M} {owner : Slot → Owner M} {a : RegAct M} {m : M}
variable {e : AcProtEntry M} {i j : Slot}

lemma AcProtEntry.not_liveFor_of_null (hmm : e.mm = .null) : ¬ e.LiveFor m := by
  simp [AcProtEntry.LiveFor, hmm]

lemma AcProtEntry.not_liveFor_of_removing (hmm : e.mm ≠ .reserved) (hrem : e.removing = true) :
    ¬ e.LiveFor m := by
  simp [AcProtEntry.LiveFor, hmm, hrem]

lemma liveFor_of_update (hlive : (s'.prots j).LiveFor m)
    (hprots : s'.prots = Function.update s.prots i e)
    (hi : e.LiveFor m → (s.prots i).LiveFor m) : (s.prots j).LiveFor m := by
  rw [hprots] at hlive
  by_cases hji : j = i
  · subst hji
    rw [Function.update_self] at hlive
    exact hi hlive
  · rwa [Function.update_of_ne hji] at hlive

variable [DecidableEq M]

lemma liveFor_of_cancelClaims {m' : M} {prots : Slot → AcProtEntry M}
    (hlive : (cancelClaims prots m' j).LiveFor m) : (prots j).LiveFor m := by
  unfold cancelClaims at hlive
  split_ifs at hlive with hclaim
  · simp [AcProtEntry.LiveFor, hclaim.1] at hlive
  · exact hlive

/-- A slot becomes live for an mm only by a claim, which `ac_add_prot_mm` makes when no slot is. -/
lemma Registry.Owned.liveFor_of_step (h : s.Owned owner) (hstep : s.step a = some s')
    (hlive : (s'.prots j).LiveFor m) :
    (s.prots j).LiveFor m ∨
      ((∃ pid comm jit, a = .addEnter m pid comm jit) ∧ (∀ k, ¬ (s.prots k).LiveFor m) ∧
        (s'.prots j).mm = .reserved ∧ ∀ k ≠ j, s'.prots k = s.prots k) := by
  have hnull : ∀ {e : AcProtEntry M} {k : Slot}, e.mm = .null → e.LiveFor m →
      (s.prots k).LiveFor m := fun hmm he => absurd he (AcProtEntry.not_liveFor_of_null hmm)
  cases Registry.rule_of_step hstep with
  | addClaim m' pid comm jit i hnone hfree =>
    by_cases hji : j = i
    · subst hji
      obtain rfl : m' = m := by simpa [AcProtEntry.LiveFor] using hlive
      exact .inr ⟨⟨pid, comm, jit, rfl⟩, hnone, by simp, fun k hk => Function.update_of_ne hk _ _⟩
    · left
      simpa [Function.update_of_ne hji] using hlive
  | settlePublish c call i pid comm jit hc hpc hkind hcancel =>
    have hi := h.slot_of_call hc (i := i) (by rw [hpc]; rfl)
    rw [hpc] at hi
    cases hi with
    | registered _ _ _ hmm hclaim _ _ _ =>
    refine .inl (liveFor_of_update hlive (i := i) rfl fun he => .inr ⟨hmm, ?_, hcancel⟩)
    obtain ⟨hm, -⟩ := he.resolve_right (by simp)
    cases hm
    exact hclaim
  | finish c call i hc hpc =>
    have hi := h.slot_of_call hc (i := i) (by rw [hpc]; rfl)
    rw [hpc] at hi
    cases hi with
    | unregistered _ _ hmm _ _ _ => exact .inl (liveFor_of_update hlive (i := i) rfl (hnull hmm))
  | workFinish i hwi =>
    have hi := h.slots i
    obtain ⟨m', ho⟩ := hi.owner_work (by simp [hwi])
    rw [ho] at hi
    exact .inl (liveFor_of_update hlive (i := i) rfl (hnull hi.entry_of_exit.1))
  | delFound m' i hmm hrem =>
    refine .inl (liveFor_of_update hlive (i := i) rfl fun he => absurd he ?_)
    exact AcProtEntry.not_liveFor_of_removing (by simp [hmm]) rfl
  | clearFound m' i hmm hrem =>
    refine .inl (liveFor_of_update hlive (i := i) rfl fun he => absurd he ?_)
    exact AcProtEntry.not_liveFor_of_removing (by simp [hmm]) rfl
  | addPublished m' pid comm jit i hmm hrem =>
    exact .inl (liveFor_of_update hlive (i := i) rfl id)
  | settleFail c call i ret hc hpc hret =>
    exact .inl (liveFor_of_update hlive (i := i) rfl (hnull rfl))
  | settleCancel c call i hc hpc hcancel =>
    exact .inl (liveFor_of_update hlive (i := i) rfl (hnull rfl))
  | delNone m' hnone => exact .inl (liveFor_of_cancelClaims hlive)
  | releaseCaller i m' hn hmm hrem =>
    exact .inl (liveFor_of_update hlive (i := i) rfl (hnull rfl))
  | releaseOrganic i m' hn hmm hrem =>
    exact .inl (liveFor_of_update hlive (i := i) rfl (hnull rfl))
  | queueRelease i m' pid comm hn => exact .inl (liveFor_of_update hlive (i := i) rfl id)
  | _ => exact .inl hlive

end Live

/-! ### The counter -/

section Count

def SlotMm.isPublished : SlotMm M → Bool
  | .mm _ => true
  | _ => false

/-- The slots whose mm is neither `NULL` nor `AC_PROT_RESERVED`. -/
def published (prots : Slot → AcProtEntry M) : Finset Slot :=
  Finset.univ.filter fun i => (prots i).mm.isPublished

variable {prots : Slot → AcProtEntry M} {e : AcProtEntry M} {i : Slot}

lemma mem_published : i ∈ published prots ↔ ∃ m, (prots i).mm = .mm m := by
  rw [published, Finset.mem_filter_univ]
  cases (prots i).mm <;> simp [SlotMm.isPublished]

lemma card_published_le : (published prots).card ≤ acProtMax := by
  simpa using Finset.card_le_univ (published prots)

lemma published_update_same (h : e.mm.isPublished = (prots i).mm.isPublished) :
    published (Function.update prots i e) = published prots := by
  ext j
  by_cases hji : j = i
  · subst hji
    simp [published, h]
  · simp [published, Function.update_of_ne hji]

lemma card_published_publish (h : (prots i).mm.isPublished = false)
    (he : e.mm.isPublished = true) :
    (published (Function.update prots i e)).card = (published prots).card + 1 := by
  have hins : published (Function.update prots i e) = insert i (published prots) := by
    ext j
    by_cases hji : j = i
    · subst hji
      simp [published, he]
    · simp [published, hji]
  rw [hins, Finset.card_insert_of_notMem (by simp [published, h])]

lemma card_published_clear (h : (prots i).mm.isPublished = true)
    (he : e.mm.isPublished = false) :
    (published (Function.update prots i e)).card + 1 = (published prots).card := by
  have hmem : i ∈ published prots := by simp [published, h]
  have hers : published (Function.update prots i e) = (published prots).erase i := by
    ext j
    by_cases hji : j = i
    · subst hji
      simp [published, he]
    · simp [published, hji]
  rw [hers, Finset.card_erase_add_one hmem]

lemma published_cancelClaims [DecidableEq M] (m : M) :
    published (cancelClaims prots m) = published prots := by
  ext j
  unfold published cancelClaims
  by_cases h : (prots j).mm = .reserved ∧ (prots j).claiming = some m <;> simp [h]

/-- `ac_prot_count` counts the published entries. -/
def Registry.Counted (s : Registry M) : Prop := s.count.toNat = (published s.prots).card

variable {s s' : Registry M} {owner : Slot → Owner M} {a : RegAct M}

lemma Registry.Counted.same (hs : s.Counted) (hcount : s'.count = s.count)
    (hpub : published s'.prots = published s.prots) : s'.Counted := by
  rw [Registry.Counted, hcount, hpub]
  exact hs

lemma Registry.Counted.publish (hs : s.Counted) (hcount : s'.count = s.count + 1)
    (hprots : s'.prots = Function.update s.prots i e) (h : (s.prots i).mm.isPublished = false)
    (he : e.mm.isPublished = true) : s'.Counted := by
  have hcard := card_published_publish h he
  have hle : (published s.prots).card ≤ 64 := card_published_le
  unfold Registry.Counted at hs ⊢
  rw [hcount, hprots, hcard, ← hs]
  rw [← hs] at hle
  bv_omega

lemma Registry.Counted.clear (hs : s.Counted) (hcount : s'.count = s.count - 1)
    (hprots : s'.prots = Function.update s.prots i e) (h : (s.prots i).mm.isPublished = true)
    (he : e.mm.isPublished = false) : s'.Counted := by
  have hcard := card_published_clear h he
  unfold Registry.Counted at hs ⊢
  rw [← hs, ← hprots] at hcard
  rw [hcount]
  bv_omega

variable [DecidableEq M]

theorem Registry.Counted.step (hs : s.Counted) (h : s.Owned owner)
    (hstep : s.step a = some s') : s'.Counted := by
  cases Registry.rule_of_step hstep with
  | settlePublish c call i pid comm jit hc hpc hkind hcancel =>
    have hi := h.slot_of_call hc (i := i) (by rw [hpc]; rfl)
    rw [hpc] at hi
    cases hi with
    | registered _ _ _ hmm _ _ _ _ => exact hs.publish (i := i) rfl rfl (by rw [hmm]; rfl) rfl
  | releaseCaller i m hn hmm hrem => exact hs.clear (i := i) rfl rfl (by rw [hmm]; rfl) rfl
  | releaseOrganic i m hn hmm hrem => exact hs.clear (i := i) rfl rfl (by rw [hmm]; rfl) rfl
  | addClaim m pid comm jit i hnone hfree =>
    exact hs.same rfl (published_update_same (by rw [hfree.1]; rfl))
  | settleFail c call i ret hc hpc hret =>
    have hi := h.slot_of_call hc (i := i) (by rw [hpc]; rfl)
    rw [hpc] at hi
    cases hi with
    | registered _ _ _ hmm _ _ _ _ => exact hs.same rfl (published_update_same (by rw [hmm]; rfl))
  | settleCancel c call i hc hpc hcancel =>
    have hi := h.slot_of_call hc (i := i) (by rw [hpc]; rfl)
    rw [hpc] at hi
    cases hi with
    | registered _ _ _ hmm _ _ _ _ => exact hs.same rfl (published_update_same (by rw [hmm]; rfl))
  | delNone m hnone => exact hs.same rfl (published_cancelClaims m)
  | addPublished m pid comm jit i hmm hrem => exact hs.same rfl (published_update_same rfl)
  | delFound m i hmm hrem => exact hs.same rfl (published_update_same rfl)
  | clearFound m i hmm hrem => exact hs.same rfl (published_update_same rfl)
  | finish c call i hc hpc => exact hs.same rfl (published_update_same rfl)
  | queueRelease i m pid comm hn => exact hs.same rfl (published_update_same rfl)
  | workFinish i hw => exact hs.same rfl (published_update_same rfl)
  | _ => exact hs

end Count

/-! ### Registering and unregistering in pairs -/

section Log

variable [DecidableEq M]

/-- Follow the events of slot `i`: `some m` while a registration for `m` is outstanding. A second
`register`, and an `unregister` of anything but the outstanding registration, have no result. -/
def NotifierEv.apply (i : Slot) (owed : Option M) : NotifierEv M → Option (Option M)
  | .register j m => if j = i then (if owed = none then some (some m) else none) else some owed
  | .unregister j m => if j = i then (if owed = some m then some none else none) else some owed

/-- The registration of a notifier that still has to be undone. -/
def Notifier.owed : Notifier M → Option M
  | .idle => none
  | .hashed m => some m
  | .releasing m => some m
  | .cleared m _ _ => some m
  | .unhashed m => some m

/-- On every slot, registrations and unregistrations alternate and match. -/
def Registry.Paired (s : Registry M) : Prop :=
  ∀ i, run (NotifierEv.apply i) none s.log = some (s.notifier i).owed

variable {s s' : Registry M} {owner : Slot → Owner M} {a : RegAct M} {i : Slot}

lemma Registry.Paired.same (hs : s.Paired) (hlog : s'.log = s.log)
    (hn : ∀ i, (s'.notifier i).owed = (s.notifier i).owed) : s'.Paired := by
  intro i
  rw [hlog, hn i, hs i]

lemma Registry.Paired.update (hs : s.Paired) {n : Notifier M} (hlog : s'.log = s.log)
    (hnot : s'.notifier = Function.update s.notifier i n) (hn : n.owed = (s.notifier i).owed) :
    s'.Paired := by
  refine hs.same hlog fun j => ?_
  by_cases hji : j = i
  · subst hji
    rw [hnot, Function.update_self, hn]
  · rw [hnot, Function.update_of_ne hji]

lemma Registry.Paired.register (hs : s.Paired) {m : M} (hn : s.notifier i = .idle) :
    (s.register i m).Paired := by
  intro j
  rw [Registry.register_log, run_append, hs j, Registry.register_notifier]
  by_cases hji : j = i
  · subst hji
    simp [run_cons, NotifierEv.apply, hn, Notifier.owed]
  · simp [run_cons, NotifierEv.apply, hji, Ne.symm hji]

lemma Registry.Paired.unregister (hs : s.Paired) {m : M} (hn : (s.notifier i).owed = some m) :
    (s.unregister i m).Paired := by
  intro j
  rw [Registry.unregister_log, run_append, hs j, Registry.unregister_notifier]
  by_cases hji : j = i
  · subst hji
    rw [hn]
    simp [run_cons, NotifierEv.apply, Notifier.owed]
  · simp [run_cons, NotifierEv.apply, hji, Ne.symm hji]

theorem Registry.Paired.step (hs : s.Paired) (h : s.Owned owner)
    (hstep : s.step a = some s') : s'.Paired := by
  cases Registry.rule_of_step hstep with
  | registerOk c call i hc hpc =>
    have hi := h.slot_of_call hc (i := i) (by rw [hpc]; rfl)
    rw [hpc] at hi
    cases hi with
    | registering _ _ _ _ _ hn _ => exact hs.register hn
  | unregBegin c call i m hc hpc hn =>
    have hi := h.slot_of_call hc (i := i) (by rw [hpc]; rfl)
    rw [hpc, hn] at hi
    refine hs.update rfl rfl ?_
    rw [hn]
    cases hi with
    | unregistering _ _ _ _ hn' _ => simpa [Notifier.owed, eq_comm] using hn'
  | unregReturn c call i hc hpc hquiet =>
    have hi := h.slot_of_call hc (i := i) (by rw [hpc]; rfl)
    rw [hpc] at hi
    cases hi with
    | unregistering _ _ _ _ hn _ =>
    refine hs.unregister ?_
    rcases hn with hn | hn | ⟨hn, -⟩ <;> rw [hn] <;> rfl
  | exit m hpin =>
    refine hs.same rfl fun i => ?_
    rw [Registry.exitMm_notifier]
    split_ifs with hn
    · rw [hn]
      rfl
    · rfl
  | releaseCaller i m hn hmm hrem => exact hs.update rfl rfl (by rw [hn]; rfl)
  | releaseOrganic i m hn hmm hrem => exact hs.update rfl rfl (by rw [hn]; rfl)
  | releaseStale i m hn hmm => exact hs.update rfl rfl (by rw [hn]; rfl)
  | queueRelease i m pid comm hn => exact hs.update rfl rfl (by rw [hn]; rfl)
  | workUnregister i m hw hrel hquiet =>
    have hi := h.slots i
    obtain ⟨m', ho⟩ := hi.owner_work (by simp [hw])
    rw [ho] at hi
    refine Registry.Paired.unregister hs ?_
    generalize hwi : s.work i = w at hi
    cases hi with
    | queued _ _ _ hrel' hn _ =>
      rw [hn, ← hrel, hrel']
      rfl
    | cleared => simp_all
    | dropped => simp_all
  | _ => exact hs

end Log

/-! ### The invariant along runs -/

/-- What holds in every reachable state of the registry. -/
structure Registry.Inv [DecidableEq M] (s : Registry M) : Prop where
  owned : ∃ owner, s.Owned owner
  unique : ∀ m i j, (s.prots i).LiveFor m → (s.prots j).LiveFor m → i = j
  counted : s.Counted
  paired : s.Paired

section Runs

variable [DecidableEq M] {s s' : Registry M} {a : RegAct M}

lemma Registry.Inv.init : (Registry.init : Registry M).Inv where
  owned := ⟨_, Registry.Owned.init⟩
  unique := fun _ _ _ hi => absurd hi (AcProtEntry.not_liveFor_of_null rfl)
  counted := by
    simp [Registry.Counted, Registry.init, published, AcProtEntry.empty, SlotMm.isPublished]
  paired := fun _ => rfl

theorem Registry.Inv.step (h : s.Inv) (hstep : s.step a = some s') : s'.Inv := by
  obtain ⟨owner, howned⟩ := h.owned
  refine ⟨howned.step hstep, ?_, h.counted.step howned hstep, h.paired.step howned hstep⟩
  intro m i j hi hj
  rcases howned.liveFor_of_step hstep hi with hi' | ⟨-, hnone, -, hframe⟩
  · rcases howned.liveFor_of_step hstep hj with hj' | ⟨-, hnone, -⟩
    · exact h.unique m i j hi' hj'
    · exact absurd hi' (hnone i)
  · by_contra hne
    rw [hframe j (Ne.symm hne)] at hj
    exact hnone j hj

theorem Registry.Inv.of_run {as : List (RegAct M)} (h : s.Inv)
    (hrun : run Registry.step s as = some s') : s'.Inv :=
  run_invariant (fun _ _ _ hs hstep => hs.step hstep) h hrun

end Runs

end Anticheat
