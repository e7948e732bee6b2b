import Anticheat.Device.FdState
import Anticheat.Lib.Run

/-!
# The calls on a descriptor, one at a time

Whatever calls share a descriptor, they answer like operations on two snapshots that happen one
after the other: `BEGIN` takes a snapshot, `GET` reads an entry of the last one, `END` drops it.
There is one state for the descriptor, and when the file is released everything allocated for it
has been freed once.
-/

namespace Anticheat.Device

open Baseline Modules Linearize Transition

/-! ### What the loop over the mappings makes -/

/-- The mappings a snapshot has room for. -/
def scanEntries (pathbuf : Bool) (areas : List VmArea) : List VmaEntry :=
  (areas.take acMaxVmas).map (VmArea.entry pathbuf)

/-- The entries without the flag of the scan are the snapshot that the daemon's checks work on. -/
lemma map_scanEntries (pathbuf : Bool) (areas : List VmArea) :
    (scanEntries pathbuf areas).map VmaEntry.toAcVmaInfo =
      (acBuildVmaSnapshot pathbuf (areas.map VmArea.toVma)).1 := by
  simp [scanEntries, acBuildVmaSnapshot, List.map_take, Function.comp_def, VmArea.entry]

/-- A counter that is raised first, and the rest of the count. -/
lemma ite_succ_add (b : Bool) (n k : ℕ) :
    (if b then n + 1 else n) + k = n + (k + if b then 1 else 0) := by
  cases b
  · simp
  · simp only [if_true]
    omega

lemma vmaWalk_eq (pathbuf : Bool) (w : VmaWalk) (areas : List VmArea)
    (hw : w.entries.length ≤ acMaxVmas) :
    vmaWalk pathbuf w areas =
      let new := (areas.take (acMaxVmas - w.entries.length)).map (VmArea.entry pathbuf)
      { entries := w.entries ++ new
        rwxCount := w.rwxCount + new.countP VmaEntry.rwx
        anonExecCount := w.anonExecCount + new.countP VmaEntry.anonExec
        execCount := w.execCount + new.countP (·.exec)
        truncated := w.truncated || acMaxVmas < w.entries.length + areas.length } := by
  induction areas generalizing w with
  | nil =>
    have hlt : ¬ acMaxVmas < w.entries.length := Nat.not_lt.mpr hw
    simp [vmaWalk, hlt]
  | cons a as ih =>
    rw [vmaWalk]
    by_cases hfull : acMaxVmas ≤ w.entries.length
    · have heq : w.entries.length = acMaxVmas := Nat.le_antisymm hw hfull
      simp [heq]
    · have hlt := Nat.lt_of_not_le hfull
      obtain ⟨k, hk⟩ : ∃ k, acMaxVmas - w.entries.length = k + 1 :=
        ⟨acMaxVmas - w.entries.length - 1, by omega⟩
      have hk' : acMaxVmas - (w.entries.length + 1) = k := by omega
      have hlen : (w.entries ++ [a.entry pathbuf]).length = w.entries.length + 1 := by simp
      rw [if_neg hfull, ih _ (hlen ▸ hlt)]
      simp only [hlen, hk, hk', List.take_succ_cons, List.map_cons, List.countP_cons,
        List.append_assoc, List.singleton_append, List.length_cons, VmaWalk.mk.injEq, true_and]
      refine ⟨?_, ?_, ?_, ?_⟩
      · exact ite_succ_add (a.exec && a.write) _ _
      · exact ite_succ_add (!(a.entry pathbuf).isFile && a.exec) _ _
      · exact ite_succ_add a.exec _ _
      · rw [Nat.add_right_comm, Nat.add_assoc]

/-! ### The snapshots as an object -/

/-- What the calls on a descriptor are for: the two snapshots, and the events that scans emit. -/
structure Session where
  scan : List VmaEntry
  mods : List AcModInfo
  emits : List AcEmit

def Session.empty : Session := ⟨[], [], []⟩

/-- What `SCAN_BEGIN` says of the snapshot it took. -/
def scanHeader (pid : ℤ) (truncated : Bool) (es : List VmaEntry) : ScanHeader :=
  ⟨pid, es.length, es.countP VmaEntry.rwx, es.countP (·.exec), es.countP VmaEntry.anonExec,
    truncated⟩

/-- A scan of the target: the snapshot, or none with the reason, and the events. -/
def Session.scanned (σ : Session) (fault : Fault) (t : ScanTarget) : Session × FdRet :=
  match t.task, t.mm with
  | some (pid, comm), some areas =>
    if t.array then
      let es := scanEntries t.pathbuf areas
      (⟨es, σ.mods, σ.emits ++ if t.emitEvents then es.flatMap (VmaEntry.emits pid comm) else []⟩,
        deliver fault (.header (scanHeader pid (acMaxVmas < areas.length) es)))
    else (⟨[], σ.mods, σ.emits⟩, .err .enomem)
  | _, _ => (⟨[], σ.mods, σ.emits⟩, .err .esrch)

/-- Entry `index` of a snapshot. -/
def fetched {α : Type} (fault : Fault) (ret : α → FdRet) (l : List α) (index : ℕ) : FdRet :=
  match l[index]? with
  | some e => deliver fault (ret e)
  | none => .err .einval

/-- One call at a time. -/
def Session.apply (σ : Session) (op : FdOp) : Session × FdRet :=
  if op.fault = .fetch then (σ, .err .efault)
  else
    match op with
    | .scanBegin fault _ t => σ.scanned fault t
    | .scanGet fault index => (σ, fetched fault .vma σ.scan index)
    | .scanEnd => ({ σ with scan := [] }, .ok)
    | .modsBegin _ _ array ring =>
      if array then
        let ms := acBuildModSnapshot 0 ring
        ({ σ with mods := ms }, deliver op.fault (.count ms.length))
      else ({ σ with mods := [] }, .err .enomem)
    | .modsGet fault index => (σ, fetched fault .mod σ.mods index)
    | .modsEnd => ({ σ with mods := [] }, .ok)

/-- Besides, a `BEGIN` can fail for want of memory for the state of the descriptor, as long as there
is no snapshot of either kind. -/
def sessionSpec (σ : Session) (op : FdOp) (σ' : Session) (r : FdRet) : Prop :=
  σ.apply op = (σ', r) ∨
    (op.begins = true ∧ op.kzalloc = false) ∧ (σ.scan = [] ∧ σ.mods = []) ∧ σ' = σ ∧
      r = .err .enomem

/-! ### Who holds what -/

/-- The call holds `ac_fd_state_alloc_lock`. -/
def FdPc.hasAllocLock : FdPc → Bool
  | .checking | .publishing _ | .allocUnlocking _ => true
  | _ => false

/-- The published state that the call works on. -/
def FdPc.pointer : FdPc → Option ℕ
  | .allocUnlocking (some p) | .locking p | .inside p | .cleared p | .unlocking p _ => some p
  | _ => none

/-- The state whose lock the call holds. -/
def FdPc.locked : FdPc → Option ℕ
  | .inside p | .cleared p | .unlocking p _ => some p
  | _ => none

/-- Only a `BEGIN` gets here. -/
def FdPc.beginning : FdPc → Bool
  | .allocLocking | .checking | .publishing _ | .allocUnlocking _ | .cleared _ => true
  | _ => false

/-- The snapshot that the call replaces is gone from the state. -/
def FdOp.Dropped (op : FdOp) (st : AcFdState) : Prop :=
  match op with
  | .scanBegin .. => st.vmas = none ∧ st.nVmas = 0
  | .modsBegin .. => st.mods = none ∧ st.nMods = 0
  | _ => False

/-- What holds of call `i` from where it is. -/
structure FdCall.Ok (m : FdShared) (i : ℕ) (c : FdCall) : Prop where
  fetch : c.op.fault = .fetch → c.pc = .entered ∨ ∃ r, c.pc = .returned r
  begins : c.pc.beginning = true → c.op.begins = true
  alloc : c.pc.hasAllocLock = true → m.allocLock = some i
  pointer : ∀ p, c.pc.pointer = some p → m.privateData = some p
  lock : ∀ p, c.pc.locked = some p → ∃ st, m.states[p]? = some st ∧ st.lock = some i
  publishing : ∀ p, c.pc = .publishing p →
    p = 0 ∧ m.privateData = none ∧ m.states.length = 1
  cleared : ∀ p st, c.pc = .cleared p → m.states[p]? = some st → c.op.Dropped st

/-- What a step of call `i` does to what the calls share. -/
inductive FdTouch (i : ℕ) (m m' : FdShared) : Prop
  | none : m'.allocLock = m.allocLock → m'.privateData = m.privateData → m'.states = m.states →
      FdTouch i m m'
  /-- take or give back the lock for allocations -/
  | alloc : m.allocLock = .none ∨ m.allocLock = some i → m'.privateData = m.privateData →
      m'.states = m.states → FdTouch i m m'
  /-- make or publish the state under this lock -/
  | publish : m.allocLock = some i → m'.allocLock = m.allocLock → m.privateData = .none →
      FdTouch i m m'
  /-- write to a state under its lock, or take the lock -/
  | write (p : ℕ) (st st' : AcFdState) : m'.allocLock = m.allocLock →
      m'.privateData = m.privateData → m.states[p]? = some st →
      st.lock = .none ∨ st.lock = some i → m'.states = m.states.set p st' → FdTouch i m m'

section Frame

variable {m m' : FdShared} {i j : ℕ} {c d : FdCall}

/-- A step of one call leaves what is known of the others. -/
lemma FdCall.Ok.frame (h : d.Ok m j) (ht : FdTouch i m m') (hne : j ≠ i) : d.Ok m' j := by
  have hne' : some j ≠ some i := by simpa using hne
  refine ⟨h.fetch, h.begins, fun hd => ?_, fun p hd => ?_, fun p hd => ?_, fun p hd => ?_,
    fun p st hd hst => ?_⟩
  · have hj := h.alloc hd
    cases ht with
    | none ha _ _ => exact ha.trans hj
    | alloc ha _ _ =>
      rcases ha with ha | ha
      · cases hj.symm.trans ha
      · exact absurd (hj.symm.trans ha) hne'
    | publish _ ha _ => exact ha.trans hj
    | write _ _ _ ha _ _ _ _ => exact ha.trans hj
  · have hj := h.pointer p hd
    cases ht with
    | none _ hp _ => exact hp.trans hj
    | alloc _ hp _ => exact hp.trans hj
    | publish _ _ hp => cases hj.symm.trans hp
    | write _ _ _ _ hp _ _ _ => exact hp.trans hj
  · obtain ⟨st, hst, hlock⟩ := h.lock p hd
    cases ht with
    | none _ _ hs => exact ⟨st, hs ▸ hst, hlock⟩
    | alloc _ _ hs => exact ⟨st, hs ▸ hst, hlock⟩
    | publish _ _ hp =>
      have hpointer : d.pc.pointer = some p := by
        revert hd
        cases d.pc <;> simp [FdPc.locked, FdPc.pointer]
      cases (h.pointer p hpointer).symm.trans hp
    | write q st₀ st' _ _ hq hlock₀ hs =>
      have hpq : p ≠ q := by
        rintro rfl
        cases hst.symm.trans hq
        rcases hlock₀ with h₀ | h₀
        · cases hlock.symm.trans h₀
        · exact hne' (hlock.symm.trans h₀)
      exact ⟨st, by rw [hs, List.getElem?_set_ne (Ne.symm hpq), hst], hlock⟩
  · have hj := h.alloc (by rw [hd]; rfl)
    obtain ⟨hp0, hpriv, hlen⟩ := h.publishing p hd
    cases ht with
    | none _ hp hs => exact ⟨hp0, hp.trans hpriv, hs ▸ hlen⟩
    | alloc _ hp hs => exact ⟨hp0, hp.trans hpriv, hs ▸ hlen⟩
    | publish ha _ _ => exact absurd (hj.symm.trans ha) hne'
    | write _ _ _ _ hp _ _ hs => exact ⟨hp0, hp.trans hpriv, by rw [hs, List.length_set, hlen]⟩
  · cases ht with
    | none _ _ hs => exact h.cleared p st hd (hs ▸ hst)
    | alloc _ _ hs => exact h.cleared p st hd (hs ▸ hst)
    | publish _ _ hp => cases (h.pointer p (by rw [hd]; rfl)).symm.trans hp
    | write q st₀ st' _ _ hq hlock₀ hs =>
      obtain ⟨st₁, hst₁, hlock⟩ := h.lock p (by rw [hd]; rfl)
      have hpq : p ≠ q := by
        rintro rfl
        cases hst₁.symm.trans hq
        rcases hlock₀ with h₀ | h₀
        · cases hlock.symm.trans h₀
        · exact hne' (hlock.symm.trans h₀)
      rw [hs, List.getElem?_set_ne (Ne.symm hpq)] at hst
      exact h.cleared p st hd hst

lemma FdCall.ok_entered (m : FdShared) (i : ℕ) (op : FdOp) : FdCall.Ok m i ⟨op, .entered⟩ where
  fetch _ := .inl rfl
  begins h := by cases h
  alloc h := by cases h
  pointer _ h := by cases h
  lock _ h := by cases h
  publishing _ h := by cases h
  cleared _ _ h := by cases h

lemma FdCall.ok_returned (m : FdShared) (i : ℕ) (op : FdOp) (r : FdRet) :
    FdCall.Ok m i ⟨op, .returned r⟩ where
  fetch _ := .inr ⟨r, rfl⟩
  begins h := by cases h
  alloc h := by cases h
  pointer _ h := by cases h
  lock _ h := by cases h
  publishing _ h := by cases h
  cleared _ _ h := by cases h

end Frame

/-! ### What the state of the descriptor stands for -/

/-- The array holds the snapshot. -/
def Shows {α : Type} (array : Option (ℕ × List α)) (n : ℕ) (l : List α) : Prop :=
  n = l.length ∧ (array.map Prod.snd).getD [] = l

lemma shows_none {α : Type} : Shows (α := α) none 0 [] := ⟨rfl, rfl⟩

/-- Behind the test of the index an entry is read inside of the array. -/
lemma Shows.fetched_eq {α : Type} {array : Option (ℕ × List α)} {n : ℕ} {l : List α}
    (h : Shows array n l) (fault : Fault) (ret : α → FdRet) (index : ℕ) :
    fetched fault ret l index =
      if n ≤ index then .err .einval else deliver fault (readEntry array index ret) := by
  obtain ⟨rfl, rfl⟩ := h
  unfold fetched readEntry
  cases array with
  | none => simp
  | some a =>
    simp only [Option.map_some, Option.getD_some, Option.bind_some]
    split_ifs with hle
    · rw [List.getElem?_eq_none hle]
    · rw [List.getElem?_eq_getElem (Nat.lt_of_not_le hle)]

/-- A call that holds the lock of the state is about to replace a snapshot. -/
def Replacing (calls : List FdCall) (st : AcFdState) (isOp : FdOp → Bool) : Prop :=
  ∃ i c, st.lock = some i ∧ calls[i]? = some c ∧ c.pc = .cleared 0 ∧ isOp c.op = true

def FdOp.isScanBegin : FdOp → Bool
  | .scanBegin .. => true
  | _ => false

def FdOp.isModsBegin : FdOp → Bool
  | .modsBegin .. => true
  | _ => false

/-- There is no state, or one that is not published yet, or one that shows the snapshots of the
session but for the one that is being replaced. -/
inductive FdShape (calls : List FdCall) (σ : Session) : Option ℕ → List AcFdState → Prop
  | absent : σ.scan = [] → σ.mods = [] → FdShape calls σ none []
  | fresh (k i : ℕ) (c : FdCall) : σ.scan = [] → σ.mods = [] → calls[i]? = some c →
      c.pc = .publishing 0 → FdShape calls σ none [.zero k]
  | present (st : AcFdState) :
      (Shows st.vmas st.nVmas σ.scan ∨ Replacing calls st FdOp.isScanBegin) →
      (Shows st.mods st.nMods σ.mods ∨ Replacing calls st FdOp.isModsBegin) →
      FdShape calls σ (some 0) [st]

section Shape

variable {calls : List FdCall} {σ : Session} {i : ℕ} {c c' : FdCall} {st : AcFdState}
  {priv : Option ℕ} {states : List AcFdState}

lemma Replacing.set {isOp : FdOp → Bool} (h : Replacing calls st isOp) (hi : calls[i]? = some c)
    (hpc : c.pc ≠ .cleared 0) : Replacing (calls.set i c') st isOp := by
  obtain ⟨j, d, hlock, hj, hd, hop⟩ := h
  have hji : j ≠ i := by
    rintro rfl
    obtain rfl : d = c := Option.some.inj (hj.symm.trans hi)
    exact hpc hd
  exact ⟨j, d, hlock, (getElem?_set_eq_some hi).mpr (.inr ⟨hji, hj⟩), hd, hop⟩

/-- The call that holds the lock is the only one that can be replacing a snapshot. -/
lemma Replacing.holder {isOp : FdOp → Bool} (h : Replacing calls st isOp)
    (hi : calls[i]? = some c) (hlock : st.lock = some i) :
    c.pc = .cleared 0 ∧ isOp c.op = true := by
  obtain ⟨j, d, hj, hd, hpc, hop⟩ := h
  obtain rfl : j = i := Option.some.inj (hj.symm.trans hlock)
  obtain rfl : d = c := Option.some.inj (hd.symm.trans hi)
  exact ⟨hpc, hop⟩

lemma FdShape.set (h : FdShape calls σ priv states) (hi : calls[i]? = some c)
    (hpub : c.pc ≠ .publishing 0) (hclr : c.pc ≠ .cleared 0) :
    FdShape (calls.set i c') σ priv states := by
  cases h with
  | absent hscan hmods => exact .absent hscan hmods
  | fresh k j d hscan hmods hj hd =>
    have hji : j ≠ i := by
      rintro rfl
      obtain rfl : d = c := Option.some.inj (hj.symm.trans hi)
      exact hpub hd
    exact .fresh k j d hscan hmods ((getElem?_set_eq_some hi).mpr (.inr ⟨hji, hj⟩)) hd
  | present st hscan hmods =>
    exact .present st (hscan.imp_right fun h => h.set hi hclr)
      (hmods.imp_right fun h => h.set hi hclr)

lemma FdShape.concat (h : FdShape calls σ priv states) : FdShape (calls ++ [c]) σ priv states := by
  have hrep : ∀ {st isOp}, Replacing calls st isOp → Replacing (calls ++ [c]) st isOp := by
    rintro st isOp ⟨j, d, hlock, hj, hd, hop⟩
    exact ⟨j, d, hlock, getElem?_concat_eq_some.mpr (.inr hj), hd, hop⟩
  cases h with
  | absent hscan hmods => exact .absent hscan hmods
  | fresh k j d hscan hmods hj hd =>
    exact .fresh k j d hscan hmods (getElem?_concat_eq_some.mpr (.inr hj)) hd
  | present st hscan hmods => exact .present st (hscan.imp_right hrep) (hmods.imp_right hrep)

/-- As long as nothing is published both snapshots are empty. -/
lemma FdShape.empty_of_none (h : FdShape calls σ none states) : σ.scan = [] ∧ σ.mods = [] := by
  cases h with
  | absent hscan hmods => exact ⟨hscan, hmods⟩
  | fresh k j d hscan hmods hj hd => exact ⟨hscan, hmods⟩

/-- The published state. -/
lemma FdShape.present_of_some {p : ℕ} (h : FdShape calls σ (some p) states) :
    p = 0 ∧ ∃ st, states = [st] ∧
      (Shows st.vmas st.nVmas σ.scan ∨ Replacing calls st FdOp.isScanBegin) ∧
      (Shows st.mods st.nMods σ.mods ∨ Replacing calls st FdOp.isModsBegin) := by
  cases h with
  | present st hscan hmods => exact ⟨rfl, st, rfl, hscan, hmods⟩

end Shape

/-! ### What one step does -/

/-- What holds at any time. -/
structure FdSys.Inv (s : FdSys) (σ : Session) : Prop where
  ok : ∀ (i : ℕ) (c : FdCall), s.calls[i]? = some c → c.Ok s.shared i
  shape : FdShape s.calls σ s.shared.privateData s.shared.states
  heap : s.shared.heap.Owns (if s.closed then [] else s.shared.states.flatMap AcFdState.allocs)
  emits : s.shared.emits = σ.emits
  lin : Linearized sessionSpec .empty FdCall.op FdCall.ret s.calls s.log σ
  closed : s.closed = true → ∀ c ∈ s.calls, ∃ r, c.pc = .returned r

lemma FdSys.inv_init : FdSys.init.Inv .empty where
  ok i c h := by simp [FdSys.init] at h
  shape := .absent rfl rfl
  heap := Heap.owns_empty
  emits := rfl
  lin := .nil
  closed h := by cases h

/-- What a step of call `i` leads to, with what is to be shown of it. -/
structure FdStep (s : FdSys) (σ : Session) (i : ℕ) (c : FdCall) (pc : FdPc) (m : FdShared)
    (σ' : Session) : Prop where
  touch : FdTouch i s.shared m
  ok : FdCall.Ok m i { c with pc }
  shape : FdShape (s.calls.set i { c with pc }) σ' m.privateData m.states
  heap : m.heap.Owns (m.states.flatMap AcFdState.allocs)
  emits : m.emits = σ'.emits
  effect : (FdCall.ret { c with pc } = c.ret ∧ σ' = σ) ∨
    ∃ r, c.ret = none ∧ FdCall.ret { c with pc } = some r ∧ sessionSpec σ c.op σ' r

section Step

variable {s : FdSys} {σ : Session} {i p : ℕ} {c : FdCall} {pc : FdPc} {m : FdShared}

/-- A call at one of the places before the state is locked. -/
lemma FdSys.Inv.fetch_ne (hs : s.Inv σ) (hi : s.calls[i]? = some c) (hent : c.pc ≠ .entered)
    (hret : ∀ r, c.pc ≠ .returned r) : c.op.fault ≠ .fetch := by
  intro hf
  rcases (hs.ok i c hi).fetch hf with h | ⟨r, h⟩
  · exact hent h
  · exact hret r h

lemma apply_absent (hop : c.op.begins = false) (hf : c.op.fault ≠ .fetch) (hscan : σ.scan = [])
    (hmods : σ.mods = []) : σ.apply c.op = (σ, c.op.absent) := by
  obtain ⟨scan, mods, emits⟩ := σ
  obtain rfl : scan = [] := hscan
  obtain rfl : mods = [] := hmods
  unfold Session.apply
  rw [if_neg hf]
  cases hc : c.op with
  | scanBegin _ _ _ => simp [hc, FdOp.begins] at hop
  | modsBegin _ _ _ _ => simp [hc, FdOp.begins] at hop
  | scanGet _ _ => rfl
  | scanEnd => rfl
  | modsGet _ _ => rfl
  | modsEnd => rfl

/-- A step before the state is locked that leaves the states alone. -/
lemma FdStep.of_outside (hs : s.Inv σ) (hopen : s.closed = false) (hi : s.calls[i]? = some c)
    (hpub : c.pc ≠ .publishing 0) (hclr : c.pc ≠ .cleared 0) (htouch : FdTouch i s.shared m)
    (hpriv : m.privateData = s.shared.privateData) (hstates : m.states = s.shared.states)
    (hheap : m.heap = s.shared.heap) (hemits : m.emits = s.shared.emits)
    (hok : FdCall.Ok m i { c with pc })
    (heffect : FdCall.ret { c with pc } = c.ret ∨
      ∃ r, c.ret = none ∧ FdCall.ret { c with pc } = some r ∧ sessionSpec σ c.op σ r) :
    FdStep s σ i c pc m σ where
  touch := htouch
  ok := hok
  shape := by
    rw [hpriv, hstates]
    exact hs.shape.set hi hpub hclr
  heap := by
    have hheap' := hs.heap
    rw [hopen] at hheap'
    rw [hheap, hstates]
    exact hheap'
  emits := hemits.trans hs.emits
  effect := heffect.imp_left fun h => ⟨h, rfl⟩

/-- The state that a call past `locking` works on. -/
lemma FdSys.Inv.pointed (hs : s.Inv σ) (hi : s.calls[i]? = some c) (hp : c.pc.pointer = some p) :
    p = 0 ∧ s.shared.privateData = some 0 ∧ ∃ st, s.shared.states = [st] ∧
      (Shows st.vmas st.nVmas σ.scan ∨ Replacing s.calls st FdOp.isScanBegin) ∧
      (Shows st.mods st.nMods σ.mods ∨ Replacing s.calls st FdOp.isModsBegin) := by
  have hpriv := (hs.ok i c hi).pointer p hp
  obtain ⟨rfl, st, hst⟩ := (hpriv ▸ hs.shape).present_of_some
  exact ⟨rfl, hpriv, st, hst⟩

/-- The call that holds the lock of the state sees both snapshots, but for the one it is
replacing itself. -/
lemma FdSys.Inv.holder (hs : s.Inv σ) (hi : s.calls[i]? = some c) (hl : c.pc.locked = some p) :
    p = 0 ∧ s.shared.privateData = some 0 ∧ ∃ st, s.shared.states = [st] ∧ st.lock = some i ∧
      (Shows st.vmas st.nVmas σ.scan ∨ c.pc = .cleared 0 ∧ c.op.isScanBegin = true) ∧
      (Shows st.mods st.nMods σ.mods ∨ c.pc = .cleared 0 ∧ c.op.isModsBegin = true) := by
  have hp : c.pc.pointer = some p := by
    revert hl
    cases c.pc <;> simp [FdPc.locked, FdPc.pointer]
  obtain ⟨rfl, hpriv, st, hst, hscan, hmods⟩ := hs.pointed hi hp
  obtain ⟨st', hst', hlock⟩ := (hs.ok i c hi).lock 0 hl
  rw [hst] at hst'
  cases hst'
  exact ⟨rfl, hpriv, st, hst, hlock, hscan.imp_right fun h => h.holder hi hlock,
    hmods.imp_right fun h => h.holder hi hlock⟩

/-- A step on the published state, under its lock or taking it. -/
lemma FdStep.of_state {st st' : AcFdState} {σ' : Session} (hpriv : s.shared.privateData = some 0)
    (hst : s.shared.states = [st]) (hlock : st.lock = none ∨ st.lock = some i)
    (halloc : m.allocLock = s.shared.allocLock)
    (hpriv' : m.privateData = some 0) (hst' : m.states = [st'])
    (hok : FdCall.Ok m i { c with pc })
    (hscan : Shows st'.vmas st'.nVmas σ'.scan ∨
      Replacing (s.calls.set i { c with pc }) st' FdOp.isScanBegin)
    (hmods : Shows st'.mods st'.nMods σ'.mods ∨
      Replacing (s.calls.set i { c with pc }) st' FdOp.isModsBegin)
    (hheap : m.heap.Owns st'.allocs) (hemits : m.emits = σ'.emits)
    (heffect : (FdCall.ret { c with pc } = c.ret ∧ σ' = σ) ∨
      ∃ r, c.ret = none ∧ FdCall.ret { c with pc } = some r ∧ sessionSpec σ c.op σ' r) :
    FdStep s σ i c pc m σ' where
  touch := .write 0 st st' halloc (hpriv'.trans hpriv.symm) (by rw [hst]; rfl) hlock
    (by rw [hst, hst']; rfl)
  ok := hok
  shape := by
    rw [hpriv', hst']
    exact .present st' hscan hmods
  heap := by
    rw [hst']
    simpa using hheap
  emits := hemits
  effect := heffect

/-- What is known of a call that has the lock of the state. -/
lemma FdCall.ok_locked {st : AcFdState} {op : FdOp} (hf : op.fault ≠ .fetch)
    (hpriv : m.privateData = some 0) (hst : m.states = [st]) (hlock : st.lock = some i)
    (hpc : pc.locked = some 0) (hclr : pc = .cleared 0 → op.begins = true ∧ op.Dropped st) :
    FdCall.Ok m i ⟨op, pc⟩ := by
  refine ⟨fun h => absurd h hf, fun hb => ?_, fun ha => ?_, fun q hq => ?_, fun q hq => ?_,
    fun q hq => ?_, fun q st' hq hst' => ?_⟩
  · cases pc with
    | cleared q =>
      cases hpc
      exact (hclr rfl).1
    | _ => simp_all [FdPc.locked, FdPc.beginning]
  · revert hpc ha
    cases pc <;> simp [FdPc.locked, FdPc.hasAllocLock]
  · have hq0 : q = 0 := by
      revert hpc hq
      cases pc with
      | allocUnlocking o => simp [FdPc.locked]
      | _ => simp_all [FdPc.locked, FdPc.pointer]
    rw [hq0]
    exact hpriv
  · obtain rfl : 0 = q := Option.some.inj (hpc.symm.trans hq)
    exact ⟨st, by rw [hst]; rfl, hlock⟩
  · rw [show pc = .publishing q from hq] at hpc
    cases hpc
  · obtain rfl : pc = .cleared q := hq
    cases hpc
    rw [hst] at hst'
    cases hst'
    exact (hclr rfl).2

/-- The call that has the lock of the state makes its answer. -/
lemma FdStep.answer {st st' : AcFdState} {σ' : Session} {op : FdOp} {pc₀ : FdPc} {r : FdRet}
    (hf : op.fault ≠ .fetch) (hpriv : s.shared.privateData = some 0)
    (hst : s.shared.states = [st]) (hlock : st.lock = some i)
    (halloc : m.allocLock = s.shared.allocLock) (hpriv' : m.privateData = some 0)
    (hst' : m.states = [st']) (hlock' : st'.lock = some i)
    (hscan : Shows st'.vmas st'.nVmas σ'.scan) (hmods : Shows st'.mods st'.nMods σ'.mods)
    (hheap : m.heap.Owns st'.allocs) (hemits : m.emits = σ'.emits)
    (hret : FdCall.ret ⟨op, pc₀⟩ = none) (happly : σ.apply op = (σ', r)) :
    FdStep s σ i ⟨op, pc₀⟩ (.unlocking 0 r) m σ' :=
  .of_state hpriv hst (.inr hlock) halloc hpriv' hst'
    (FdCall.ok_locked hf hpriv' hst' hlock' rfl (by simp)) (.inl hscan) (.inl hmods) hheap hemits
    (.inr ⟨r, hret, rfl, .inl happly⟩)

lemma states_dropScan {st : AcFdState} (h : m.states = [st]) :
    (m.dropScan 0 st).states = [st.clearScan] := by
  rw [FdShared.dropScan, h]
  rfl

lemma states_dropMods {st : AcFdState} (h : m.states = [st]) :
    (m.dropMods 0 st).states = [st.clearMods] := by
  rw [FdShared.dropMods, h]
  rfl

/-- Freeing the array of modules. -/
lemma owns_clearMods {h : Heap} {st : AcFdState} (hown : h.Owns st.allocs) :
    (h.free (st.mods.map Prod.fst)).Owns st.clearMods.allocs :=
  (hown.congr (List.perm_append_comm_assoc _ _ _)).free

/-- `ac_build_vma_snapshot` past the reset takes the snapshot of the session, or leaves none. -/
lemma fdStep_buildScan {fault : Fault} {kzalloc : Bool} {t : ScanTarget} {r : FdRet}
    {st : AcFdState} (hs : s.Inv σ) (hf : (FdOp.scanBegin fault kzalloc t).fault ≠ .fetch)
    (hpriv : s.shared.privateData = some 0) (hst : s.shared.states = [st])
    (hlock : st.lock = some i) (hdrop : st.vmas = none ∧ st.nVmas = 0)
    (hmods : Shows st.mods st.nMods σ.mods) (hheap : s.shared.heap.Owns st.allocs)
    (h : s.shared.buildScan 0 st fault t = (r, m)) :
    ∃ σ', FdStep s σ i ⟨.scanBegin fault kzalloc t, .cleared 0⟩ (.unlocking 0 r) m σ' := by
  obtain ⟨hvmas, hn⟩ := hdrop
  have hnone : Shows st.vmas st.nVmas [] := by
    rw [hvmas, hn]
    exact shows_none
  have happly : σ.apply (.scanBegin fault kzalloc t) = σ.scanned fault t := by
    rw [Session.apply, if_neg hf]
  have hset : ∀ st' : AcFdState, s.shared.states.set 0 st' = [st'] := fun st' => by rw [hst]; rfl
  unfold FdShared.buildScan at h
  unfold Session.scanned at happly
  cases htask : t.task with
  | none =>
    simp only [htask] at h happly
    cases h
    exact ⟨⟨[], σ.mods, σ.emits⟩, .answer hf hpriv hst hlock rfl hpriv hst hlock hnone hmods hheap
      hs.emits rfl happly⟩
  | some task =>
    obtain ⟨pid, comm⟩ := task
    cases hmm : t.mm with
    | none =>
      simp only [htask, hmm] at h happly
      cases h
      exact ⟨⟨[], σ.mods, σ.emits⟩, .answer hf hpriv hst hlock rfl hpriv (hset _) hlock hnone hmods
        hheap hs.emits rfl happly⟩
    | some areas =>
      cases harr : t.array with
      | false =>
        simp only [htask, hmm, harr, Bool.not_false, Bool.false_eq_true, if_true, if_false]
          at h happly
        cases h
        exact ⟨⟨[], σ.mods, σ.emits⟩, .answer hf hpriv hst hlock rfl hpriv (hset _) hlock hnone
          hmods hheap hs.emits rfl happly⟩
      | true =>
        simp only [htask, hmm, harr, Bool.not_true, Bool.false_eq_true, if_true, if_false,
          vmaWalk_eq t.pathbuf ⟨[], 0, 0, 0, false⟩ areas (Nat.zero_le _), List.nil_append,
          List.length_nil, Nat.sub_zero, Nat.zero_add, Bool.false_or] at h happly
        cases h
        refine ⟨⟨scanEntries t.pathbuf areas, σ.mods, _⟩,
          .answer hf hpriv hst hlock rfl hpriv (hset _) hlock ⟨rfl, rfl⟩ hmods ?_ ?_ rfl happly⟩
        · have halloc := hheap.alloc
          simp only [AcFdState.allocs, hvmas, Option.map_none, Option.toList_none,
            List.nil_append] at halloc
          exact halloc
        · simp only [hs.emits, scanEntries]

/-- The same for `ac_build_mod_snapshot`. -/
lemma fdStep_buildMods {fails kzalloc array : Bool} {ring : List Module} {r : FdRet}
    {st : AcFdState} (hs : s.Inv σ) (hf : (FdOp.modsBegin fails kzalloc array ring).fault ≠ .fetch)
    (hpriv : s.shared.privateData = some 0) (hst : s.shared.states = [st])
    (hlock : st.lock = some i) (hdrop : st.mods = none ∧ st.nMods = 0)
    (hscan : Shows st.vmas st.nVmas σ.scan) (hheap : s.shared.heap.Owns st.allocs)
    (h : s.shared.buildMods 0 st (FdOp.modsBegin fails kzalloc array ring).fault array ring =
      (r, m)) :
    ∃ σ', FdStep s σ i ⟨.modsBegin fails kzalloc array ring, .cleared 0⟩ (.unlocking 0 r) m σ' := by
  obtain ⟨hmods, hn⟩ := hdrop
  have hnone : Shows st.mods st.nMods [] := by
    rw [hmods, hn]
    exact shows_none
  have hset : ∀ st' : AcFdState, s.shared.states.set 0 st' = [st'] := fun st' => by rw [hst]; rfl
  have happly : σ.apply (.modsBegin fails kzalloc array ring) =
      if array then ({ σ with mods := acBuildModSnapshot 0 ring },
        deliver (FdOp.modsBegin fails kzalloc array ring).fault
          (.count (acBuildModSnapshot 0 ring).length))
      else ({ σ with mods := [] }, .err .enomem) := by
    rw [Session.apply, if_neg hf]
  unfold FdShared.buildMods at h
  cases array with
  | false =>
    simp only [Bool.not_false, Bool.false_eq_true, if_true, if_false] at h happly
    cases h
    exact ⟨{ σ with mods := [] }, .answer hf hpriv hst hlock rfl hpriv hst hlock hscan hnone hheap
      hs.emits rfl happly⟩
  | true =>
    simp only [Bool.not_true, Bool.false_eq_true, if_true, if_false] at h happly
    cases h
    refine ⟨{ σ with mods := acBuildModSnapshot 0 ring },
      .answer hf hpriv hst hlock rfl hpriv (hset _) hlock hscan ⟨rfl, rfl⟩ ?_ hs.emits rfl happly⟩
    have halloc := hheap.alloc
    simp only [AcFdState.allocs, hmods, Option.map_none, Option.toList_none,
      List.nil_append] at halloc
    exact halloc.congr List.perm_middle.symm

/-! #### One lemma for each place a call can be at -/

variable (hs : s.Inv σ) (hopen : s.closed = false) (hi : s.calls[i]? = some c)
  (h : c.next s.shared i = some (pc, m))

include hs hopen hi h

lemma fdStep_entered (hpc : c.pc = .entered) : FdStep s σ i c pc m σ := by
  obtain ⟨op, pc₀⟩ := c
  obtain rfl : pc₀ = .entered := hpc
  have hsame : FdTouch i s.shared s.shared := .none rfl rfl rfl
  simp only [FdCall.next] at h
  by_cases hf : op.fault = .fetch
  · rw [if_pos hf] at h
    cases h
    refine .of_outside hs hopen hi (by simp) (by simp) hsame rfl rfl rfl rfl
      (FdCall.ok_returned _ _ _ _) (.inr ⟨_, rfl, rfl, .inl ?_⟩)
    simp [Session.apply, hf]
  · rw [if_neg hf] at h
    cases hp : s.shared.privateData with
    | some p =>
      rw [hp] at h
      cases h
      refine .of_outside hs hopen hi (by simp) (by simp) hsame rfl rfl rfl rfl ?_ (.inl rfl)
      refine ⟨fun hf' => absurd hf' hf, by simp [FdPc.beginning], by simp [FdPc.hasAllocLock], ?_,
        by simp [FdPc.locked], by simp, by simp⟩
      rintro q ⟨⟩
      exact hp
    | none =>
      rw [hp] at h
      cases hb : op.begins with
      | true =>
        rw [hb] at h
        cases h
        refine .of_outside hs hopen hi (by simp) (by simp) hsame rfl rfl rfl rfl ?_ (.inl rfl)
        exact ⟨fun hf' => absurd hf' hf, fun _ => hb, by simp [FdPc.hasAllocLock],
          by simp [FdPc.pointer], by simp [FdPc.locked], by simp, by simp⟩
      | false =>
        rw [hb] at h
        cases h
        obtain ⟨hscan, hmods⟩ := (hp ▸ hs.shape).empty_of_none
        exact .of_outside hs hopen hi (by simp) (by simp) hsame rfl rfl rfl rfl
          (FdCall.ok_returned _ _ _ _)
          (.inr ⟨_, rfl, rfl, .inl (apply_absent (c := ⟨op, .entered⟩) hb hf hscan hmods)⟩)

lemma fdStep_allocLocking (hpc : c.pc = .allocLocking) : FdStep s σ i c pc m σ := by
  have hf := hs.fetch_ne hi (by simp [hpc]) (by simp [hpc])
  have hb := (hs.ok i c hi).begins (by rw [hpc]; rfl)
  obtain ⟨op, pc₀⟩ := c
  obtain rfl : pc₀ = .allocLocking := hpc
  simp only [FdCall.next] at h
  split_ifs at h with hlock
  cases h
  refine .of_outside hs hopen hi (by simp) (by simp) (.alloc (.inl hlock) rfl rfl) rfl rfl rfl rfl
    ?_ (.inl rfl)
  exact ⟨fun hf' => absurd hf' hf, fun _ => hb, fun _ => rfl, by simp [FdPc.pointer],
    by simp [FdPc.locked], by simp, by simp⟩

lemma fdStep_checking (hpc : c.pc = .checking) : FdStep s σ i c pc m σ := by
  have hf := hs.fetch_ne hi (by simp [hpc]) (by simp [hpc])
  have hb := (hs.ok i c hi).begins (by rw [hpc]; rfl)
  have ha := (hs.ok i c hi).alloc (by rw [hpc]; rfl)
  have hsame : FdTouch i s.shared s.shared := .none rfl rfl rfl
  obtain ⟨op, pc₀⟩ := c
  obtain rfl : pc₀ = .checking := hpc
  simp only [FdCall.next] at h
  cases hp : s.shared.privateData with
  | some p =>
    rw [hp] at h
    cases h
    refine .of_outside hs hopen hi (by simp) (by simp) hsame rfl rfl rfl rfl ?_ (.inl rfl)
    refine ⟨fun hf' => absurd hf' hf, fun _ => hb, fun _ => ha, ?_, by simp [FdPc.locked],
      by simp, by simp⟩
    rintro q ⟨⟩
    exact hp
  | none =>
    rw [hp] at h
    cases hk : op.kzalloc with
    | false =>
      simp only [hk, Bool.false_eq_true, if_false] at h
      cases h
      refine .of_outside hs hopen hi (by simp) (by simp) hsame rfl rfl rfl rfl ?_
        (.inr ⟨_, rfl, rfl, .inr ⟨⟨hb, hk⟩, (hp ▸ hs.shape).empty_of_none, rfl, rfl⟩⟩)
      exact ⟨fun hf' => absurd hf' hf, fun _ => hb, fun _ => ha, by simp [FdPc.pointer],
        by simp [FdPc.locked], by simp, by simp⟩
    | true =>
      simp only [hk, if_true] at h
      cases h
      -- under the lock nobody else has a state that is not published
      have hempty : s.shared.states = [] ∧ σ.scan = [] ∧ σ.mods = [] := by
        have hshape := hs.shape
        rw [hp] at hshape
        generalize hst : s.shared.states = states at hshape
        cases hshape with
        | absent hscan hmods => exact ⟨rfl, hscan, hmods⟩
        | fresh k j d hscan hmods hj hd =>
          have hj' := (hs.ok j d hj).alloc (by rw [hd]; rfl)
          obtain rfl : j = i := Option.some.inj (hj'.symm.trans ha)
          cases hi.symm.trans hj
          cases hd
      obtain ⟨hnil, hscan, hmods⟩ := hempty
      have hheap := hs.heap
      rw [hopen, hnil] at hheap
      refine ⟨.publish ha rfl hp, ?_, ?_, ?_, hs.emits, .inl ⟨rfl, rfl⟩⟩
      · refine ⟨fun hf' => absurd hf' hf, fun _ => hb, fun _ => ha, by simp [FdPc.pointer],
          by simp [FdPc.locked], ?_, by simp⟩
        rintro q ⟨⟩
        simp [hnil]
      · simp only [hnil, List.length_nil, List.nil_append]
        exact .fresh _ i _ hscan hmods ((getElem?_set_eq_some hi).mpr (.inl ⟨rfl, rfl⟩)) rfl
      · simp only [hnil, List.nil_append]
        exact hheap.alloc

lemma fdStep_publishing (hpc : c.pc = .publishing p) : FdStep s σ i c pc m σ := by
  have hf := hs.fetch_ne hi (by simp [hpc]) (by simp [hpc])
  have hb := (hs.ok i c hi).begins (by rw [hpc]; rfl)
  have ha := (hs.ok i c hi).alloc (by rw [hpc]; rfl)
  obtain ⟨rfl, hp, hlen⟩ := (hs.ok i c hi).publishing p hpc
  obtain ⟨op, pc₀⟩ := c
  obtain rfl : pc₀ = .publishing 0 := hpc
  cases h
  have hheap := hs.heap
  rw [hopen] at hheap
  refine ⟨.publish ha rfl hp, ?_, ?_, hheap, hs.emits, .inl ⟨rfl, rfl⟩⟩
  · refine ⟨fun hf' => absurd hf' hf, fun _ => hb, fun _ => ha, ?_, by simp [FdPc.locked],
      by simp, by simp⟩
    rintro q ⟨⟩
    rfl
  · have hshape := hs.shape
    rw [hp] at hshape
    simp only
    generalize hst : s.shared.states = states at hshape
    cases hshape with
    | absent hscan hmods => simp [hst] at hlen
    | fresh k j d hscan hmods hj hd =>
      refine .present _ (.inl ?_) (.inl ?_)
      · rw [hscan]
        exact shows_none
      · rw [hmods]
        exact shows_none

lemma fdStep_allocUnlocking {q : Option ℕ} (hpc : c.pc = .allocUnlocking q) :
    FdStep s σ i c pc m σ := by
  have hf := hs.fetch_ne hi (by simp [hpc]) (by simp [hpc])
  have ha := (hs.ok i c hi).alloc (by rw [hpc]; rfl)
  have hptr := (hs.ok i c hi).pointer
  obtain ⟨op, pc₀⟩ := c
  obtain rfl : pc₀ = .allocUnlocking q := hpc
  cases q with
  | none =>
    cases h
    exact .of_outside hs hopen hi (by simp) (by simp) (.alloc (.inr ha) rfl rfl) rfl rfl rfl rfl
      (FdCall.ok_returned _ _ _ _) (.inl rfl)
  | some p =>
    cases h
    refine .of_outside hs hopen hi (by simp) (by simp) (.alloc (.inr ha) rfl rfl) rfl rfl rfl rfl
      ?_ (.inl rfl)
    refine ⟨fun hf' => absurd hf' hf, by simp [FdPc.beginning], by simp [FdPc.hasAllocLock], ?_,
      by simp [FdPc.locked], by simp, by simp⟩
    rintro r ⟨⟩
    exact hptr p rfl

lemma fdStep_locking (hpc : c.pc = .locking p) : FdStep s σ i c pc m σ := by
  have hf := hs.fetch_ne hi (by simp [hpc]) (by simp [hpc])
  obtain ⟨rfl, hpriv, st, hst, hscan, hmods⟩ := hs.pointed hi (by rw [hpc]; rfl)
  have hheap : s.shared.heap.Owns st.allocs := by simpa [hopen, hst] using hs.heap
  obtain ⟨op, pc₀⟩ := c
  obtain rfl : pc₀ = .locking 0 := hpc
  simp only [FdCall.next, hst, List.getElem?_cons_zero, Option.bind_eq_bind,
    Option.bind_some] at h
  split_ifs at h with hlock
  cases h
  -- nobody holds the lock, so nobody is replacing a snapshot
  have hshows : ∀ {P : Prop} {isOp : FdOp → Bool}, P ∨ Replacing s.calls st isOp → P := by
    rintro P isOp (hP | ⟨j, d, hj, -⟩)
    · exact hP
    · cases hlock.symm.trans hj
  exact .of_state hpriv hst (.inl hlock) rfl hpriv rfl
    (FdCall.ok_locked hf hpriv rfl rfl rfl (by simp)) (.inl (hshows hscan))
    (.inl (hshows hmods)) hheap hs.emits (.inl ⟨rfl, rfl⟩)

lemma fdStep_inside (hpc : c.pc = .inside p) : ∃ σ', FdStep s σ i c pc m σ' := by
  have hf := hs.fetch_ne hi (by simp [hpc]) (by simp [hpc])
  obtain ⟨rfl, hpriv, st, hst, hlock, hscan, hmods⟩ := hs.holder hi (by rw [hpc]; rfl)
  have hheap : s.shared.heap.Owns st.allocs := by simpa [hopen, hst] using hs.heap
  have hclr : c.pc ≠ .cleared 0 := by simp [hpc]
  replace hscan := hscan.resolve_right fun h => hclr h.1
  replace hmods := hmods.resolve_right fun h => hclr h.1
  obtain ⟨op, pc₀⟩ := c
  obtain rfl : pc₀ = .inside 0 := hpc
  simp only [FdCall.next, hst, List.getElem?_cons_zero, Option.bind_eq_bind,
    Option.bind_some, Option.some.injEq] at h
  have hself : ∀ {d : FdCall}, (s.calls.set i d)[i]? = some d :=
    (getElem?_set_eq_some hi).mpr (.inl ⟨rfl, rfl⟩)
  cases op with
  | scanBegin fault kzalloc t =>
    cases h
    exact ⟨σ, .of_state hpriv hst (.inr hlock) rfl hpriv (states_dropScan hst)
      (FdCall.ok_locked hf hpriv (states_dropScan hst) hlock rfl fun _ => ⟨rfl, rfl, rfl⟩)
      (.inr ⟨i, _, hlock, hself, rfl, rfl⟩) (.inl hmods) hheap.free hs.emits (.inl ⟨rfl, rfl⟩)⟩
  | modsBegin fails kzalloc array ring =>
    cases h
    exact ⟨σ, .of_state hpriv hst (.inr hlock) rfl hpriv (states_dropMods hst)
      (FdCall.ok_locked hf hpriv (states_dropMods hst) hlock rfl fun _ => ⟨rfl, rfl, rfl⟩)
      (.inl hscan) (.inr ⟨i, _, hlock, hself, rfl, rfl⟩) (owns_clearMods hheap) hs.emits
      (.inl ⟨rfl, rfl⟩)⟩
  | scanGet fault index =>
    have hread := hscan.fetched_eq fault .vma index
    simp only [FdShared.enter] at h
    split_ifs at h hread
    all_goals
      cases h
      exact ⟨σ, .answer hf hpriv hst hlock rfl hpriv hst hlock hscan hmods hheap hs.emits rfl
        (by simp only [Session.apply, if_neg hf, hread])⟩
  | modsGet fault index =>
    have hread := hmods.fetched_eq fault .mod index
    simp only [FdShared.enter] at h
    split_ifs at h hread
    all_goals
      cases h
      exact ⟨σ, .answer hf hpriv hst hlock rfl hpriv hst hlock hscan hmods hheap hs.emits rfl
        (by simp only [Session.apply, if_neg hf, hread])⟩
  | scanEnd =>
    cases h
    exact ⟨{ σ with scan := [] }, .answer hf hpriv hst hlock rfl hpriv (states_dropScan hst) hlock
      shows_none hmods hheap.free hs.emits rfl (by simp [Session.apply, FdOp.fault])⟩
  | modsEnd =>
    cases h
    exact ⟨{ σ with mods := [] }, .answer hf hpriv hst hlock rfl hpriv (states_dropMods hst) hlock
      hscan shows_none (owns_clearMods hheap) hs.emits rfl (by simp [Session.apply, FdOp.fault])⟩

lemma fdStep_cleared (hpc : c.pc = .cleared p) : ∃ σ', FdStep s σ i c pc m σ' := by
  have hf := hs.fetch_ne hi (by simp [hpc]) (by simp [hpc])
  obtain ⟨rfl, hpriv, st, hst, hlock, hscan, hmods⟩ := hs.holder hi (by rw [hpc]; rfl)
  have hheap : s.shared.heap.Owns st.allocs := by simpa [hopen, hst] using hs.heap
  have hdrop := (hs.ok i c hi).cleared 0 st hpc (by rw [hst]; rfl)
  obtain ⟨op, pc₀⟩ := c
  obtain rfl : pc₀ = .cleared 0 := hpc
  simp only [FdCall.next, hst, List.getElem?_cons_zero, Option.bind_eq_bind,
    Option.bind_some] at h
  cases op with
  | scanBegin fault kzalloc t =>
    replace hmods := hmods.resolve_right fun h => by cases h.2
    cases h
    exact fdStep_buildScan hs hf hpriv hst hlock hdrop hmods hheap rfl
  | modsBegin fails kzalloc array ring =>
    replace hscan := hscan.resolve_right fun h => by cases h.2
    cases h
    exact fdStep_buildMods hs hf hpriv hst hlock hdrop hscan hheap rfl
  | scanGet _ _ => cases h
  | scanEnd => cases h
  | modsGet _ _ => cases h
  | modsEnd => cases h

lemma fdStep_unlocking {r : FdRet} (hpc : c.pc = .unlocking p r) :
    FdStep s σ i c pc m σ := by
  obtain ⟨rfl, hpriv, st, hst, hlock, hscan, hmods⟩ := hs.holder hi (by rw [hpc]; rfl)
  have hheap : s.shared.heap.Owns st.allocs := by simpa [hopen, hst] using hs.heap
  obtain ⟨op, pc₀⟩ := c
  obtain rfl : pc₀ = .unlocking 0 r := hpc
  simp only [FdCall.next, hst, List.getElem?_cons_zero, Option.bind_eq_bind,
    Option.bind_some] at h
  cases h
  exact .of_state hpriv hst (.inr hlock) rfl hpriv rfl (FdCall.ok_returned _ _ _ _)
    (.inl (by simpa using hscan)) (.inl (by simpa using hmods)) hheap hs.emits (.inl ⟨rfl, rfl⟩)

lemma fdStep_of_next : ∃ σ', FdStep s σ i c pc m σ' := by
  cases hpc : c.pc with
  | entered => exact ⟨σ, fdStep_entered hs hopen hi h hpc⟩
  | allocLocking => exact ⟨σ, fdStep_allocLocking hs hopen hi h hpc⟩
  | checking => exact ⟨σ, fdStep_checking hs hopen hi h hpc⟩
  | publishing p => exact ⟨σ, fdStep_publishing hs hopen hi h hpc⟩
  | allocUnlocking q => exact ⟨σ, fdStep_allocUnlocking hs hopen hi h hpc⟩
  | locking p => exact ⟨σ, fdStep_locking hs hopen hi h hpc⟩
  | inside p => exact fdStep_inside hs hopen hi h hpc
  | cleared p => exact fdStep_cleared hs hopen hi h hpc
  | unlocking p r => exact ⟨σ, fdStep_unlocking hs hopen hi h hpc⟩
  | returned r =>
    rw [FdCall.next, hpc] at h
    cases h

end Step

/-! ### Whole runs -/

lemma FdSys.Inv.step {s s' : FdSys} {σ : Session} {a : FdAct} (hs : s.Inv σ)
    (h : s.step a = some s') : ∃ σ', s'.Inv σ' := by
  cases a with
  | call op =>
    simp only [FdSys.step] at h
    split_ifs at h with hclosed
    cases h
    rw [Bool.not_eq_true] at hclosed
    exact ⟨σ, forall_getElem?_concat hs.ok (FdCall.ok_entered _ _ op), hs.shape.concat, hs.heap,
      hs.emits, hs.lin.concat rfl, fun h => absurd (hclosed.symm.trans h) (by simp)⟩
  | step i =>
    obtain ⟨c, hi, h⟩ := Option.bind_eq_some_iff.mp h
    obtain ⟨⟨pc, m⟩, hnext, h⟩ := Option.bind_eq_some_iff.mp h
    cases h
    have hopen : s.closed = false := by
      by_contra hclosed
      obtain ⟨r, hr⟩ := hs.closed (by simpa using hclosed) c (List.mem_of_getElem? hi)
      rw [FdCall.next, hr] at hnext
      cases hnext
    obtain ⟨σ', hstep⟩ := fdStep_of_next hs hopen hi hnext
    refine ⟨σ', fun j d hj => ?_, hstep.shape, ?_, hstep.emits, ?_, ?_⟩
    · rcases (getElem?_set_eq_some hi).mp hj with ⟨rfl, rfl⟩ | ⟨hji, hj⟩
      · exact hstep.ok
      · exact (hs.ok j d hj).frame hstep.touch hji
    · simpa [hopen] using hstep.heap
    · exact hs.lin.advance hi rfl hstep.effect
    · exact fun h => absurd (hopen.symm.trans h) (by simp)
  | release =>
    simp only [FdSys.step] at h
    split_ifs at h with hbusy
    cases h
    rw [Bool.or_eq_true, not_or] at hbusy
    have hopen : s.closed = false := by simpa using hbusy.1
    have hret : ∀ c ∈ s.calls, ∃ r, c.pc = .returned r := by
      intro c hc
      by_contra hnot
      refine hbusy.2 (List.any_eq_true.mpr ⟨c, hc, ?_⟩)
      cases hpc : c.pc with
      | returned r => exact absurd ⟨r, hpc⟩ hnot
      | _ => rfl
    have hframe : s.shared.freeState.privateData = s.shared.privateData ∧
        s.shared.freeState.allocLock = s.shared.allocLock ∧
        s.shared.freeState.states = s.shared.states ∧
        s.shared.freeState.emits = s.shared.emits := by
      unfold FdShared.freeState
      split <;> exact ⟨rfl, rfl, rfl, rfl⟩
    obtain ⟨hpriv, halloc, hstates, hemits⟩ := hframe
    refine ⟨σ, fun i c hi => ?_, ?_, ?_, hemits.trans hs.emits, hs.lin, fun _ => hret⟩
    · obtain ⟨r, hr⟩ := hret c (List.mem_of_getElem? hi)
      obtain ⟨op, pc⟩ := c
      obtain rfl : pc = .returned r := hr
      exact FdCall.ok_returned _ _ _ _
    · simp only [hpriv, hstates]
      exact hs.shape
    · have hheap := hs.heap
      rw [hopen] at hheap
      have hshape := hs.shape
      simp only [FdShared.freeState, if_true]
      generalize s.shared.privateData = priv at hshape ⊢
      generalize s.shared.states = states at hshape hheap ⊢
      cases hshape with
      | absent _ _ => exact hheap
      | fresh k i c _ _ hi hc =>
        obtain ⟨r, hr⟩ := hret c (List.mem_of_getElem? hi)
        cases hc.symm.trans hr
      | present st _ _ =>
        have hown : s.shared.heap.Owns st.allocs := by simpa using hheap
        have hself : ((s.shared.heap.free (st.vmas.map Prod.fst)).free
            (st.mods.map Prod.fst)).Owns ((some st.self).toList ++ []) := hown.free.free
        exact hself.free

lemma FdSys.inv_of_run {s s' : FdSys} {σ : Session} {as : List FdAct} (hs : s.Inv σ)
    (h : run FdSys.step s as = some s') : ∃ σ', s'.Inv σ' :=
  run_invariant (P := fun s => ∃ σ, s.Inv σ) (fun _ _ _ ⟨_, hs⟩ hst => hs.step hst) ⟨σ, hs⟩ h

lemma FdSys.log_isPrefix_of_step {s s' : FdSys} {a : FdAct} (h : s.step a = some s') :
    s.log <+: s'.log := by
  cases a with
  | call op =>
    simp only [FdSys.step] at h
    split_ifs at h
    cases h
    exact List.prefix_rfl
  | step i =>
    obtain ⟨c, -, h⟩ := Option.bind_eq_some_iff.mp h
    obtain ⟨⟨pc, m⟩, -, h⟩ := Option.bind_eq_some_iff.mp h
    cases h
    exact isPrefix_note ..
  | release =>
    simp only [FdSys.step] at h
    split_ifs at h
    cases h
    exact List.prefix_rfl

lemma deliver_ne_wild {fault : Fault} {r : FdRet} (h : r ≠ .wild) : deliver fault r ≠ .wild := by
  unfold deliver
  split_ifs
  · simp
  · exact h

/-- A scan takes the snapshot and returns its header, or it fails and there is none. -/
lemma scanned_cases (σ : Session) (fault : Fault) (t : ScanTarget) :
    (∃ pid comm areas, t.task = some (pid, comm) ∧ t.mm = some areas ∧
      (σ.scanned fault t).1.scan = scanEntries t.pathbuf areas ∧
      (σ.scanned fault t).2 = deliver fault
        (.header (scanHeader pid (acMaxVmas < areas.length) (scanEntries t.pathbuf areas)))) ∨
    (σ.scanned fault t).1.scan = [] ∧
      ((σ.scanned fault t).2 = .err .esrch ∨ (σ.scanned fault t).2 = .err .enomem) := by
  cases htask : t.task with
  | none => exact .inr (by simp [Session.scanned, htask])
  | some task =>
    cases hmm : t.mm with
    | none => exact .inr (by simp [Session.scanned, htask, hmm])
    | some areas =>
      cases harr : t.array with
      | false => exact .inr (by simp [Session.scanned, htask, hmm, harr])
      | true =>
        refine .inl ⟨task.1, task.2, areas, rfl, rfl, ?_, ?_⟩ <;>
          simp [Session.scanned, htask, hmm, harr]

/-- The object never reads outside of a snapshot. -/
lemma sessionSpec_ne_wild {σ σ' : Session} {op : FdOp} {r : FdRet} (h : sessionSpec σ op σ' r) :
    r ≠ .wild := by
  have hfetched : ∀ {α : Type} {ret : α → FdRet} {fault : Fault} {l : List α} {index : ℕ},
      (∀ e, ret e ≠ .wild) → fetched fault ret l index ≠ .wild := by
    intro α ret fault l index hret
    unfold fetched
    split
    · exact deliver_ne_wild (hret _)
    · simp
  rcases h with h | ⟨-, -, -, rfl⟩
  · obtain rfl : (σ.apply op).2 = r := by rw [h]
    unfold Session.apply
    split_ifs
    · simp
    · cases op with
      | scanBegin fault _ t =>
        rcases scanned_cases σ fault t with ⟨_, _, _, -, -, -, hret⟩ | ⟨-, hret | hret⟩
        · exact hret ▸ deliver_ne_wild (by simp)
        · simp [hret]
        · simp [hret]
      | scanGet fault index => exact hfetched (by simp)
      | scanEnd => simp
      | modsBegin _ _ array ring =>
        simp only
        split_ifs
        · exact deliver_ne_wild (by simp)
        · simp
      | modsGet fault index => exact hfetched (by simp)
      | modsEnd => simp
  · simp

/-- However the calls on a shared descriptor interleave, they answer like calls that happen one at
a time, in an order in which a call that had returned before another one began comes first; none of
them reads outside of a snapshot. -/
theorem session_linearizable {as bs : List FdAct} {s t : FdSys}
    (hs : run FdSys.step .init as = some s) (ht : run FdSys.step s bs = some t) :
    (∃ σ, Linearize.History sessionSpec .empty t.log σ ∧ t.shared.emits = σ.emits) ∧
      (t.log.map Entry.call).Nodup ∧
      (∀ i c r, t.calls[i]? = some c → c.pc = .returned r → ⟨i, c.op, r⟩ ∈ t.log ∧ r ≠ .wild) ∧
      ∃ later, t.log = s.log ++ later ∧ ∀ e ∈ s.log, e.call < s.calls.length := by
  obtain ⟨σ, hinv⟩ := FdSys.inv_of_run FdSys.inv_init hs
  obtain ⟨σ', hinv'⟩ := FdSys.inv_of_run hinv ht
  refine ⟨⟨σ', hinv'.lin.history, hinv'.emits⟩, hinv'.lin.nodup, ?_, ?_⟩
  · intro i c r hi hr
    have hmem := hinv'.lin.mem_log hi (r := r) (by simp [FdCall.ret, hr])
    obtain ⟨_, _, hspec⟩ := hinv'.lin.history.exists_spec hmem
    exact ⟨hmem, sessionSpec_ne_wild hspec⟩
  · obtain ⟨later, hlater⟩ : s.log <+: t.log :=
      run_invariant (P := fun u => s.log <+: u.log)
        (fun _ _ _ hle hst => hle.trans (FdSys.log_isPrefix_of_step hst)) List.prefix_rfl ht
    refine ⟨later, hlater.symm, fun e he => ?_⟩
    obtain ⟨c, hc, -⟩ := (hinv.lin.mem_iff e.call e.op e.ret).mp he
    exact (List.getElem?_eq_some_iff.mp hc).1

/-- Once the file is released nothing happens on the descriptor any more. -/
lemma FdSys.Inv.step_eq_none {s : FdSys} {σ : Session} (hs : s.Inv σ) (hclosed : s.closed = true)
    (a : FdAct) : s.step a = none := by
  cases a with
  | call op => simp [FdSys.step, hclosed]
  | step i =>
    cases hi : s.calls[i]? with
    | none => simp [FdSys.step, hi]
    | some c =>
      obtain ⟨r, hr⟩ := hs.closed hclosed c (List.mem_of_getElem? hi)
      simp [FdSys.step, hi, FdCall.next, hr]
  | release => simp [FdSys.step, hclosed]

/-- A call that works on a state finds it, and what it refers to, allocated. -/
lemma FdSys.Inv.pointer_live {s : FdSys} {σ : Session} {i p : ℕ} {c : FdCall} (hs : s.Inv σ)
    (hi : s.calls[i]? = some c) (hp : c.pc.pointer = some p) :
    s.closed = false ∧ ∃ st, s.shared.states[p]? = some st ∧
      ∀ k ∈ st.allocs, k ∈ s.shared.heap.live := by
  have hopen : s.closed = false := by
    by_contra hclosed
    obtain ⟨r, hr⟩ := hs.closed (by simpa using hclosed) c (List.mem_of_getElem? hi)
    rw [hr] at hp
    cases hp
  have hshape := hs.shape
  rw [(hs.ok i c hi).pointer p hp] at hshape
  obtain ⟨rfl, st, hst, -⟩ := hshape.present_of_some
  refine ⟨hopen, st, by rw [hst]; rfl, fun k hk => ?_⟩
  refine hs.heap.perm.mem_iff.mpr ?_
  rw [hopen, hst]
  simpa using hk

/-- However the first calls on a descriptor race, one state is made for it. While the file is open
the allocations that are live are those of its state, so that whatever a call works on is
allocated; nothing is freed twice; and once the file is released nothing that was allocated for it
is left and no call goes on. -/
theorem fdState_freed_once {as : List FdAct} {s : FdSys}
    (h : run FdSys.step .init as = some s) :
    s.shared.states.length ≤ 1 ∧ s.shared.heap.misfreed = false ∧
      (s.closed = false →
        s.shared.heap.live.Perm (s.shared.states.flatMap AcFdState.allocs)) ∧
      (∀ c ∈ s.calls, ∀ p, c.pc.pointer = some p → s.closed = false ∧
        ∃ st, s.shared.states[p]? = some st ∧ ∀ k ∈ st.allocs, k ∈ s.shared.heap.live) ∧
      (s.closed = true → s.shared.heap.live = [] ∧ ∀ a, s.step a = none) := by
  obtain ⟨σ, hs⟩ := FdSys.inv_of_run FdSys.inv_init h
  refine ⟨?_, hs.heap.fine, fun hopen => ?_, fun c hc p hp => ?_,
    fun hclosed => ⟨?_, hs.step_eq_none hclosed⟩⟩
  · have hshape := hs.shape
    generalize s.shared.privateData = priv at hshape
    generalize s.shared.states = states at hshape ⊢
    cases hshape <;> simp
  · have hperm := hs.heap.perm
    rwa [hopen] at hperm
  · obtain ⟨i, hi⟩ := List.mem_iff_getElem?.mp hc
    exact hs.pointer_live hi hp
  · have hperm := hs.heap.perm
    rw [hclosed] at hperm
    exact hperm.eq_nil

def oneArea : VmArea where
  start := 0x3000
  stop := 0x5000
  pgoff := 0
  exec := true
  file := none
  lt := by decide
  range := by decide
  write := true

def otherArea : VmArea where
  start := 0x6000
  stop := 0x7000
  pgoff := 0
  exec := true
  file := none
  lt := by decide
  range := by decide
  write := false

def oneBegin : FdOp := .scanBegin .none true ⟨some (7, "game"), some [oneArea], true, true, true⟩

def otherBegin : FdOp :=
  .scanBegin .store true ⟨some (8, "other"), some [otherArea], true, true, true⟩

/-- Two `SCAN_BEGIN` calls that both find no state at first, and a `SCAN_GET` after them. The second
scan cannot copy its header to the caller. -/
def fdRace : List FdAct :=
  [.call oneBegin, .call otherBegin, .step 0, .step 1, .step 0, .step 0, .step 0, .step 0, .step 1,
    .step 1, .step 1, .step 0, .step 0, .step 0, .step 0, .step 1, .step 1, .step 1, .step 1,
    .call (.scanGet .none 0), .step 2, .step 2, .step 2, .step 2]

theorem session_linearizable_race :
    ∃ s, run FdSys.step .init fdRace = some s ∧ (s.log.map Entry.call).Nodup :=
  ⟨_, rfl, (session_linearizable (run_nil FdSys.init)
    (rfl : run FdSys.step .init fdRace = some _)).2.1⟩

theorem fdState_freed_once_race :
    ∃ s, run FdSys.step .init (fdRace ++ [.release]) = some s ∧ s.shared.heap.live = [] ∧
      ∀ a, s.step a = none :=
  ⟨_, rfl, (fdState_freed_once
    (rfl : run FdSys.step .init (fdRace ++ [.release]) = some _)).2.2.2.2 rfl⟩

/-! ### What a walk over a snapshot sees -/

/-- The calls that drop the snapshot of the mappings there was. A `SCAN_BEGIN` that cannot read its
argument does not come to that. -/
def FdOp.dropsScan : FdOp → Bool
  | .scanBegin fault .. => fault ≠ .fetch
  | .scanEnd => true
  | _ => false

/-- The last of these calls in `log` is a `SCAN_BEGIN` that took the snapshot of `areas`. It
answered with the header, unless that could not be copied to the caller. -/
def Installed (log : List (Entry FdOp FdRet)) (t : ScanTarget) (areas : List VmArea) : Prop :=
  ∃ pre mid i fault kzalloc pid comm, log = pre ++ ⟨i, .scanBegin fault kzalloc t, deliver fault
      (.header (scanHeader pid (acMaxVmas < areas.length) (scanEntries t.pathbuf areas)))⟩ :: mid ∧
    fault ≠ .fetch ∧ t.task = some (pid, comm) ∧ t.mm = some areas ∧
    ∀ e ∈ mid, e.op.dropsScan = false

/-- The other calls leave the snapshot of the mappings. -/
lemma scan_of_sessionSpec {σ σ' : Session} {op : FdOp} {r : FdRet} (h : sessionSpec σ op σ' r)
    (hop : op.dropsScan = false) : σ'.scan = σ.scan := by
  rcases h with h | ⟨-, -, rfl, -⟩
  · obtain rfl : (σ.apply op).1 = σ' := by rw [h]
    unfold Session.apply
    split_ifs with hf
    · rfl
    · cases op with
      | scanBegin fault _ _ =>
        have hfetch : fault = .fetch := by simpa [FdOp.dropsScan] using hop
        exact absurd hfetch hf
      | scanGet _ _ => rfl
      | scanEnd => cases hop
      | modsBegin _ _ array ring =>
        simp only
        split_ifs <;> rfl
      | modsGet _ _ => rfl
      | modsEnd => rfl
  · rfl

/-- A `SCAN_BEGIN` takes a snapshot and answers with its header, or there is none after it. -/
lemma scanBegin_cases {σ σ' : Session} {fault : Fault} {kzalloc : Bool} {t : ScanTarget} {r : FdRet}
    (h : sessionSpec σ (.scanBegin fault kzalloc t) σ' r) (hf : fault ≠ .fetch) :
    (∃ pid comm areas, t.task = some (pid, comm) ∧ t.mm = some areas ∧
      r = deliver fault
        (.header (scanHeader pid (acMaxVmas < areas.length) (scanEntries t.pathbuf areas))) ∧
      σ'.scan = scanEntries t.pathbuf areas) ∨
    σ'.scan = [] ∧ (r = .err .esrch ∨ r = .err .enomem) := by
  rcases h with h | ⟨-, ⟨hscan, -⟩, rfl, rfl⟩
  · have hf' : (FdOp.scanBegin fault kzalloc t).fault ≠ .fetch := hf
    rw [Session.apply, if_neg hf'] at h
    have hσ' : (σ.scanned fault t).1 = σ' := congrArg Prod.fst h
    have hr : (σ.scanned fault t).2 = r := congrArg Prod.snd h
    rcases scanned_cases σ fault t with ⟨pid, comm, areas, htask, hmm, hscan, hret⟩ | ⟨hscan, hret⟩
    · exact .inl ⟨pid, comm, areas, htask, hmm, hr ▸ hret, hσ' ▸ hscan⟩
    · exact .inr ⟨hσ' ▸ hscan, hr ▸ hret⟩
  · exact .inr ⟨hscan, .inr rfl⟩

/-- A header, or the failure to copy it, is the answer of a scan that took a snapshot. -/
lemma scan_of_deliver {σ σ' : Session} {fault : Fault} {kzalloc : Bool} {t : ScanTarget}
    {hd : ScanHeader} {areas : List VmArea}
    (h : sessionSpec σ (.scanBegin fault kzalloc t) σ' (deliver fault (.header hd)))
    (hf : fault ≠ .fetch) (hmm : t.mm = some areas) :
    σ'.scan = scanEntries t.pathbuf areas := by
  rcases scanBegin_cases h hf with ⟨pid', comm', areas', -, hmm', -, hscan⟩ | ⟨-, hr⟩
  · cases hmm.symm.trans hmm'
    exact hscan
  · unfold deliver at hr
    split_ifs at hr <;> simp at hr

/-- After the calls of a log there is the snapshot that was installed last, or none. -/
lemma scan_of_history {log : List (Entry FdOp FdRet)} {σ : Session}
    (h : Linearize.History sessionSpec .empty log σ) :
    σ.scan = [] ∨ ∃ t areas, Installed log t areas ∧ σ.scan = scanEntries t.pathbuf areas := by
  induction h with
  | nil => exact .inl rfl
  | @concat log σ σ' e _ hspec ih =>
    obtain ⟨k, op, r⟩ := e
    by_cases hop : op.dropsScan = true
    · cases op with
      | scanBegin fault kzalloc t =>
        have hf : fault ≠ .fetch := by simpa [FdOp.dropsScan] using hop
        rcases scanBegin_cases hspec hf with ⟨pid, comm, areas, htask, hmm, hr, hscan⟩ | ⟨hscan, -⟩
        · cases hr
          exact .inr ⟨t, areas, ⟨log, [], k, fault, kzalloc, pid, comm, rfl, hf, htask, hmm,
            by simp⟩, hscan⟩
        · exact .inl hscan
      | scanEnd =>
        rcases hspec with hspec | ⟨⟨hb, -⟩, -⟩
        · exact .inl (congrArg (fun p => p.1.scan) hspec).symm
        · cases hb
      | _ => cases hop
    · rw [Bool.not_eq_true] at hop
      rw [scan_of_sessionSpec hspec hop]
      refine ih.imp_right ?_
      rintro ⟨t, areas, ⟨pre, mid, i, fault, kzalloc, pid, comm, rfl, hf, htask, hmm, hmid⟩, hscan⟩
      refine ⟨t, areas, ⟨pre, mid ++ [⟨k, op, r⟩], i, fault, kzalloc, pid, comm, by simp, hf, htask,
        hmm, fun e he => ?_⟩, hscan⟩
      rcases List.mem_append.mp he with he | he
      · exact hmid e he
      · cases List.mem_singleton.mp he
        exact hop

/-- The snapshot that was installed last is there. -/
lemma Installed.scan_eq {log : List (Entry FdOp FdRet)} {σ : Session} {t : ScanTarget}
    {areas : List VmArea} (h : Installed log t areas)
    (hist : Linearize.History sessionSpec .empty log σ) : σ.scan = scanEntries t.pathbuf areas := by
  obtain ⟨pre, mid, i, fault, kzalloc, pid, comm, rfl, hf, -, hmm, hmid⟩ := h
  obtain ⟨σ₁, -, hist⟩ := History.append_iff.mp hist
  obtain ⟨σ₂, hbegin, hist⟩ := History.cons_iff.mp hist
  exact hist.invariant (P := fun σ => σ.scan = scanEntries t.pathbuf areas)
    (fun e he σ σ' hσ hspec => (scan_of_sessionSpec hspec (hmid e he)).trans hσ)
    (scan_of_deliver hbegin hf hmm)

/-- The answer of `SCAN_GET` from the snapshot there is. -/
lemma scanGet_of_sessionSpec {σ σ' : Session} {fault : Fault} {index : ℕ} {r : FdRet}
    (h : sessionSpec σ (.scanGet fault index) σ' r) :
    r = if fault = .fetch then .err .efault else fetched fault .vma σ.scan index := by
  rcases h with h | ⟨⟨hb, -⟩, -⟩
  · obtain rfl : (σ.apply (.scanGet fault index)).2 = r := by rw [h]
    by_cases hf : fault = .fetch <;> simp [Session.apply, FdOp.fault, hf]
  · cases hb

/-- Whatever calls share the descriptor, an entry that `SCAN_GET` hands out is one of the snapshot
that the last `SCAN_BEGIN` or `SCAN_END` before it installed, which was a `SCAN_BEGIN` then; and as
long as that snapshot is the last one, `SCAN_GET` hands out its entries and refuses every index
past their number. The snapshot is the one that the checks of the daemon work on. -/
theorem scanGet_of_scanBegin {as : List FdAct} {s : FdSys} {pre post : List (Entry FdOp FdRet)}
    {j index : ℕ} {fault : Fault} {r : FdRet} (h : run FdSys.step .init as = some s)
    (hlog : s.log = pre ++ ⟨j, .scanGet fault index, r⟩ :: post) :
    (∀ e, r = .vma e → ∃ t areas, Installed pre t areas ∧
      (scanEntries t.pathbuf areas)[index]? = some e) ∧
    ∀ t areas, Installed pre t areas →
      (scanEntries t.pathbuf areas).map VmaEntry.toAcVmaInfo =
        (acBuildVmaSnapshot t.pathbuf (areas.map VmArea.toVma)).1 ∧
      (fault ≠ .fetch → r = fetched fault .vma (scanEntries t.pathbuf areas) index) := by
  obtain ⟨σ, hs⟩ := FdSys.inv_of_run FdSys.inv_init h
  have hist := hs.lin.history
  rw [hlog] at hist
  obtain ⟨σ₁, hpre, hist⟩ := History.append_iff.mp hist
  obtain ⟨σ₂, hget, -⟩ := History.cons_iff.mp hist
  replace hget : r = _ := scanGet_of_sessionSpec hget
  refine ⟨fun e he => ?_, fun t areas hinst => ⟨map_scanEntries _ _, fun hf => ?_⟩⟩
  · rw [he] at hget
    split_ifs at hget with hf
    rcases scan_of_history hpre with hnil | ⟨t, areas, hinst, hscan⟩
    · simp [fetched, hnil] at hget
    · refine ⟨t, areas, hinst, ?_⟩
      rw [hscan, fetched] at hget
      split at hget
      · next e' he' =>
        unfold deliver at hget
        split_ifs at hget
        cases hget
        exact he'
      · cases hget
  · rw [hget, if_neg hf, hinst.scan_eq hpre]

def oneHeader : ScanHeader := ⟨7, 1, 1, 1, 1, false⟩

/-- The two scans and the entry read after them. -/
lemma log_fdRace : ∃ s, run FdSys.step .init fdRace = some s ∧
    s.log = [⟨0, oneBegin, .header oneHeader⟩, ⟨1, otherBegin, .err .efault⟩] ++
      ⟨2, .scanGet .none 0, .vma (otherArea.entry true)⟩ :: [] :=
  ⟨_, rfl, rfl⟩

theorem scanGet_of_scanBegin_race :
    ∃ s, run FdSys.step .init fdRace = some s ∧
      ⟨2, .scanGet .none 0, .vma (otherArea.entry true)⟩ ∈ s.log ∧
      ∃ t areas, Installed [⟨0, oneBegin, .header oneHeader⟩, ⟨1, otherBegin, .err .efault⟩]
        t areas ∧ (scanEntries t.pathbuf areas)[0]? = some (otherArea.entry true) := by
  obtain ⟨s, hrun, hlog⟩ := log_fdRace
  exact ⟨s, hrun, by rw [hlog]; simp, (scanGet_of_scanBegin hrun hlog).1 _ rfl⟩

end Anticheat.Device
