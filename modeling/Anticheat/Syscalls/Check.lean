import Anticheat.Lib.Run
import Anticheat.Syscalls.Basic

/-!
# What the syscall table check reports

The baseline is a partial map from slots to entries that only grows: a slot gets the value of its
first successful read and keeps it. The two digests that a call compares are of the entries as
they were read, with the trusted ones for slots that could not be read, and of that map; they
differ exactly at a slot that was read and changed.
-/

namespace Anticheat.Syscalls

open Hash Transition

variable {n : ℕ}

/-! ### The bytes of a table -/

/-- The bytes of a number determine it. -/
lemma mod_pow_eq_of_bytes {x y : ℕ} :
    ∀ k, (∀ i < k, x / 256 ^ i % 256 = y / 256 ^ i % 256) → x % 256 ^ k = y % 256 ^ k
  | 0, _ => by simp [Nat.mod_one]
  | k + 1, h => by
    rw [Nat.mod_pow_succ, Nat.mod_pow_succ, h k (Nat.lt_succ_self k),
      mod_pow_eq_of_bytes k fun i hi => h i (Nat.lt_succ_of_lt hi)]

lemma toNat_getD_leBytes (e : UInt64) {i : ℕ} (hi : i < 8) :
    ((leBytes e).getD i 0).toNat = e.toNat / 256 ^ i % 256 := by
  have hshift : 8 * i < 64 := by omega
  simp [leBytes, List.getElem?_range hi, Nat.shiftRight_eq_div_pow, Nat.mod_eq_of_lt hshift,
    Nat.pow_mul]

lemma leBytes_injective : Function.Injective leBytes := by
  intro e e' h
  have hmod := mod_pow_eq_of_bytes (x := e.toNat) (y := e'.toNat) 8 fun i hi => by
    rw [← toNat_getD_leBytes e hi, ← toNat_getD_leBytes e' hi, h]
  have hlt : ∀ e : UInt64, e.toNat < 256 ^ 8 := fun e => e.toNat_lt
  rw [Nat.mod_eq_of_lt (hlt e), Nat.mod_eq_of_lt (hlt e')] at hmod
  exact UInt64.toNat_inj.mp hmod

lemma tableBytes_injective : Function.Injective (tableBytes (n := n)) := by
  intro t t' h
  have hslots : ∀ l : List (Fin n), (l.flatMap fun i => leBytes (t i)) =
      (l.flatMap fun i => leBytes (t' i)) → ∀ i ∈ l, t i = t' i := by
    intro l
    induction l with
    | nil => simp
    | cons i l ih =>
      intro hl
      obtain ⟨hi, hl⟩ := List.append_inj hl (by simp [leBytes])
      exact List.forall_mem_cons.mpr ⟨leBytes_injective hi, ih hl⟩
  exact funext fun i => hslots _ h i (List.mem_finRange i)

/-! ### The baseline as a partial map -/

namespace SyscallTable

variable (s : SyscallTable n)

/-- The trusted entry of a slot, if it has one. -/
def known (i : Fin n) : Option UInt64 := if s.captured i then some (s.baseline i) else none

/-- A table whose baseline was captured: it holds 0 for the other slots and its digest is up to
date. -/
structure Captured : Prop where
  ready : s.ready = true
  baseline : ∀ i, s.baseline i = (s.known i).getD 0
  hex : s.baselineHex = acSha256Hex (tableBytes s.baseline)

end SyscallTable

/-- The value of a slot's first successful read. -/
def firstRead (reads : List (Fin n → Option UInt64)) (i : Fin n) : Option UInt64 :=
  reads.findSome? fun read => read i

/-- The entry of a slot as a call hashes it. -/
def liveTable (s : SyscallTable n) (p : Poll n) : Fin n → UInt64 := fun i => Check.liveValue p i s

/-- The slot was read and its entry points out of the core text. -/
def hookSeen (k : TextBounds) (p : Poll n) (i : Fin n) : Bool :=
  match p.read i with
  | none => false
  | some e => e ≠ 0 && k.acEntryBadSnapshot e p.ranges (p.inModule i).2

/-- The bit of the slot in `ac_hooked_bitmap` after a call: a slot that was not read, or is empty,
keeps it. -/
def nextHooked (s : SyscallTable n) (p : Poll n) (i : Fin n) : Bool :=
  match p.read i with
  | none => s.hooked i
  | some e => if e = 0 then s.hooked i else hookSeen s.bounds p i

/-- The slot that an event reports as hooked. -/
def hookSlot (x : Fin n × AcEmit) : Option (Fin n) :=
  if x.2.type = .syscallHook then some x.1 else none

/-- The slot was read and its entry is not the trusted one. -/
def Changed (s : SyscallTable n) (p : Poll n) (i : Fin n) : Prop :=
  ∃ e, p.read i = some e ∧ ∃ b, s.known i = some b ∧ e ≠ b

/-- The two messages are not a collision of the hash. -/
def NoCollision (x y : Bytes) : Prop := acSha256Hex x = acSha256Hex y → x = y

instance (x y : Bytes) : Decidable (NoCollision x y) := inferInstanceAs (Decidable (_ → _))

section Capture

variable (s : SyscallTable n) (read : Fin n → Option UInt64)

@[simp] lemma base_capture : (acCaptureSyscallBaseline s read).base = s.base := by
  unfold acCaptureSyscallBaseline
  split_ifs <;> rfl

@[simp] lemma bounds_capture : (acCaptureSyscallBaseline s read).bounds = s.bounds := by
  unfold acCaptureSyscallBaseline
  split_ifs <;> rfl

@[simp] lemma hooked_capture : (acCaptureSyscallBaseline s read).hooked = s.hooked := by
  unfold acCaptureSyscallBaseline
  split_ifs <;> rfl

end Capture

lemma known_capture {base : UInt64} (hbase : base ≠ 0) (k : TextBounds)
    (read : Fin n → Option UInt64) :
    (acCaptureSyscallBaseline (.init base k) read).known = read := by
  funext i
  simp only [acCaptureSyscallBaseline, SyscallTable.init, SyscallTable.known, hbase, if_false,
    Bool.false_or]
  cases read i <;> rfl

lemma captured_capture {base : UInt64} (hbase : base ≠ 0) (k : TextBounds)
    (read : Fin n → Option UInt64) : (acCaptureSyscallBaseline (.init base k) read).Captured := by
  refine ⟨?_, fun i => ?_, ?_⟩
  · simp [acCaptureSyscallBaseline, SyscallTable.init, hbase]
  · rw [known_capture hbase]
    simp [acCaptureSyscallBaseline, SyscallTable.init, hbase]
  · simp [acCaptureSyscallBaseline, SyscallTable.init, hbase]

lemma liveTable_eq {s : SyscallTable n} (hs : s.Captured) (p : Poll n) (i : Fin n) :
    liveTable s p i = ((p.read i).or (s.known i)).getD 0 := by
  simp only [liveTable, Check.liveValue, SyscallTable.known, hs.ready, Bool.true_and]
  cases p.read i with
  | some e => simp
  | none => cases s.captured i <;> simp

/-! ### One slot -/

/-- What the loop has done when the slots of `l` are behind it. -/
structure LoopInv (s : SyscallTable n) (p : Poll n) (l : List (Fin n)) (a : Check n) : Prop where
  captured : a.st.Captured
  base : a.st.base = s.base
  bounds : a.st.bounds = s.bounds
  known : ∀ i, a.st.known i = if i ∈ l then (s.known i).or (p.read i) else s.known i
  hash : a.hash = acSha256Update acSha256Init (l.flatMap fun i => leBytes (liveTable s p i))
  hooked : a.hooked = l.countP (hookSeen s.bounds p)
  bits : ∀ i, a.st.hooked i = if i ∈ l then nextHooked s p i else s.hooked i
  slots : a.emits.filterMap hookSlot = l.filter fun i => hookSeen s.bounds p i && !s.hooked i
  redirected : a.redirected ≠ 0 → ∃ i ∈ l, Changed s p i

namespace SyscallTable

variable {s : SyscallTable n} {i : Fin n} {e : UInt64}

/-- The slot takes the entry as its baseline. -/
def adopt (s : SyscallTable n) (i : Fin n) (e : UInt64) : SyscallTable n :=
  let baseline := Function.update s.baseline i e
  { s with
    baseline := baseline
    captured := Function.update s.captured i true
    baselineHex := acSha256Hex (tableBytes baseline)
    redirect := Function.update s.redirect i false }

lemma known_adopt (j : Fin n) : (s.adopt i e).known j = if j = i then some e else s.known j := by
  rcases eq_or_ne j i with rfl | hj
  · simp [adopt, known]
  · simp [adopt, known, hj]

lemma Captured.adopt (hs : s.Captured) : (s.adopt i e).Captured := by
  refine ⟨hs.ready, fun j => ?_, by simp only [SyscallTable.adopt]⟩
  rw [known_adopt]
  rcases eq_or_ne j i with rfl | hj
  · simp [SyscallTable.adopt]
  · simpa [SyscallTable.adopt, hj] using hs.baseline j

lemma Captured.congr {h r : Fin n → Bool} (hs : s.Captured) :
    ({ s with hooked := h, redirect := r } : SyscallTable n).Captured :=
  ⟨hs.ready, hs.baseline, hs.hex⟩

end SyscallTable

namespace Check

variable {p : Poll n} {i : Fin n} {e : UInt64} {a : Check n}

/-- A slot without a baseline adopts the entry; one with a baseline keeps it, and counts as
redirected only when the entry is another. -/
lemma compareBaseline_cases (ha : a.st.ready = true) :
    (a.st.known i = none ∧ compareBaseline p i e a = { a with st := a.st.adopt i e }) ∨
      ∃ b r k es, a.st.known i = some b ∧ (k ≠ a.redirected → e ≠ b) ∧
        es.filterMap hookSlot = a.emits.filterMap hookSlot ∧
        compareBaseline p i e a =
          { a with st := { a.st with redirect := r }, redirected := k, emits := es } := by
  rw [compareBaseline, if_neg (by simp [ha])]
  cases hc : a.st.captured i with
  | false =>
    rw [if_pos (by simp)]
    exact .inl ⟨by simp [SyscallTable.known, hc], by simp only [SyscallTable.adopt]⟩
  | true =>
    rw [if_neg (by simp)]
    refine .inr ⟨a.st.baseline i, ?_⟩
    have hk : a.st.known i = some (a.st.baseline i) := by simp [SyscallTable.known, hc]
    by_cases hne : e ≠ a.st.baseline i
    · rw [if_pos hne]
      split_ifs
      · exact ⟨_, _, _, hk, fun _ => hne, rfl, rfl⟩
      · exact ⟨_, _, _, hk, fun _ => hne, by simp [hookSlot, redirectEvent], rfl⟩
      · exact ⟨_, _, _, hk, fun _ => hne, rfl, rfl⟩
    · rw [if_neg hne]
      exact ⟨_, _, _, hk, fun h => absurd rfl h, rfl, rfl⟩

/-- In both cases the slot's first reading is what it trusts. -/
lemma compareBaseline_known (ha : a.st.Captured) :
    ∃ st k es, compareBaseline p i e a = { a with st := st, redirected := k, emits := es } ∧
      st.Captured ∧ st.base = a.st.base ∧ st.bounds = a.st.bounds ∧ st.hooked = a.st.hooked ∧
      es.filterMap hookSlot = a.emits.filterMap hookSlot ∧
      (∀ j, st.known j = if j = i then (a.st.known i).or (some e) else a.st.known j) ∧
      (k ≠ a.redirected → ∃ b, a.st.known i = some b ∧ e ≠ b) := by
  obtain ⟨hnone, heq⟩ | ⟨b, r, k, es, hb, hk, hes, heq⟩ := compareBaseline_cases ha.ready (p := p)
  · refine ⟨_, _, _, heq, ha.adopt, rfl, rfl, rfl, rfl, fun j => ?_, fun h => absurd rfl h⟩
    rw [SyscallTable.known_adopt, hnone, Option.none_or]
  · refine ⟨_, _, _, heq, ha.congr, rfl, rfl, rfl, hes, fun j => ?_, fun h => ⟨b, hb, hk h⟩⟩
    split_ifs with hj
    · rw [hj, hb]
      exact hb
    · rfl

/-- The classification counts a slot as hooked when its entry points out of the core text, and
reports it when its bit was not set. -/
lemma classify_cases {s : SyscallTable n} (hread : p.read i = some e)
    (hbounds : a.st.bounds = s.bounds) (hhooked : a.st.hooked i = s.hooked i) :
    ∃ t m es, es.filterMap hookSlot = a.emits.filterMap hookSlot ++
        (if hookSeen s.bounds p i && !s.hooked i then [i] else []) ∧
      classify p i e a = { a with
        st := { a.st with hooked := Function.update a.st.hooked i (nextHooked s p i) }
        total := t, nonText := m, emits := es
        hooked := a.hooked + if hookSeen s.bounds p i then 1 else 0 } := by
  rw [classify, hbounds]
  by_cases hzero : e = 0
  · rw [if_pos hzero]
    refine ⟨a.total, a.nonText, a.emits, by simp [hookSeen, hread, hzero], ?_⟩
    simp [hookSeen, nextHooked, hread, hzero, ← hhooked]
  rw [if_neg hzero]
  by_cases hbad : s.bounds.acEntryBadSnapshot e p.ranges (p.inModule i).2 = true
  · have hseen : hookSeen s.bounds p i = true := by simp [hookSeen, hread, hzero, hbad]
    rw [if_pos hbad, hhooked]
    refine ⟨_, _, _, ?_, by simp only [nextHooked, hread, hzero, hseen, if_true, if_false]; rfl⟩
    cases s.hooked i <;> simp [hseen, hookSlot, hookEvent]
  · have hseen : hookSeen s.bounds p i = false := by simp [hookSeen, hread, hbad]
    rw [if_neg hbad]
    refine ⟨a.total + 1, a.nonText, a.emits, by simp [hseen], ?_⟩
    simp only [nextHooked, hread, hzero, hseen, if_false, Bool.false_eq_true, Nat.add_zero]

end Check

namespace LoopInv

variable {s : SyscallTable n} {p : Poll n} {l : List (Fin n)} {a : Check n} {i : Fin n}

/-- The hash takes the entry of the slot as it stands in the table the call began with. -/
lemma hash_slot (ha : LoopInv s p l a) (hi : i ∉ l) (hs : s.Captured) :
    acSha256Update a.hash (leBytes (Check.liveValue p i a.st)) =
      acSha256Update acSha256Init ((l ++ [i]).flatMap fun i => leBytes (liveTable s p i)) := by
  have hlive : Check.liveValue p i a.st = liveTable s p i := by
    change liveTable a.st p i = _
    rw [liveTable_eq ha.captured, liveTable_eq hs, ha.known, if_neg hi]
  rw [ha.hash, hlive, acSha256Update_append acSha256Init_ok, List.flatMap_append]
  simp

/-- The slots done and the new one. -/
lemma known_append (ha : LoopInv s p l a) (hi : i ∉ l) (st : SyscallTable n)
    (hst : ∀ j, st.known j = if j = i then (a.st.known i).or (p.read i) else a.st.known j)
    (j : Fin n) :
    st.known j = if j ∈ l ++ [i] then (s.known j).or (p.read j) else s.known j := by
  rw [hst, ha.known, ha.known, if_neg hi]
  rcases eq_or_ne j i with rfl | hj
  · simp
  · simp [hj]

/-- The loop body keeps the invariant. -/
lemma slot (hs : s.Captured) (hi : i ∉ l) (ha : LoopInv s p l a) :
    LoopInv s p (l ++ [i]) (a.slot p i) := by
  let a₁ : Check n := { a with hash := acSha256Update a.hash (leBytes (Check.liveValue p i a.st)) }
  have hhash : a₁.hash = _ := ha.hash_slot hi hs
  have hki : a.st.known i = s.known i := by rw [ha.known, if_neg hi]
  rw [Check.slot]
  cases hread : p.read i with
  | none =>
    have hk := ha.known_append hi a.st (by intro j; split_ifs with h <;> simp [hread, h])
    have hseen : hookSeen s.bounds p i = false := by simp [hookSeen, hread]
    refine ⟨ha.captured, ha.base, ha.bounds, hk, hhash, ?_, ?_, ?_, fun h => ?_⟩
    · simp [ha.hooked, hseen]
    · intro j
      rcases eq_or_ne j i with rfl | hj
      · simp [ha.bits, hi, nextHooked, hread]
      · simp [ha.bits, hj]
    · simp [ha.slots, hseen]
    · obtain ⟨j, hj, hch⟩ := ha.redirected h
      exact ⟨j, List.mem_append_left _ hj, hch⟩
  | some e =>
    obtain ⟨st, k, es, hcmp, hcap, hbase, hbounds, hbits, hes, hknown, hk⟩ :=
      Check.compareBaseline_known (p := p) (i := i) (e := e) (a := a₁) ha.captured
    have hbit : st.hooked i = s.hooked i := by rw [hbits, ha.bits, if_neg hi]
    obtain ⟨t, m, es', hes', hcls⟩ := Check.classify_cases (s := s) hread
      (a := { a₁ with st := st, redirected := k, emits := es }) (hbounds.trans ha.bounds) hbit
    rw [← hread] at hknown
    change LoopInv s p (l ++ [i]) (Check.classify p i e (Check.compareBaseline p i e a₁))
    rw [hcmp, hcls]
    refine ⟨hcap.congr, hbase.trans ha.base, hbounds.trans ha.bounds,
      ha.known_append hi st hknown, hhash, ?_, ?_, ?_, fun hne => ?_⟩
    · simp [a₁, ha.hooked, List.countP_cons]
    · intro j
      rcases eq_or_ne j i with rfl | hj
      · simp
      · simp [hj, hbits, a₁, ha.bits]
    · rw [hes', hes, ha.slots, List.filter_append]
      cases hb : hookSeen s.bounds p i && !s.hooked i <;> simp [hb]
    · by_cases hka : k = a.redirected
      · obtain ⟨j, hj, hch⟩ := ha.redirected (hka ▸ hne)
        exact ⟨j, List.mem_append_left _ hj, hch⟩
      · obtain ⟨b, hb, hne'⟩ := hk hka
        exact ⟨i, List.mem_append_right _ (List.mem_singleton_self i), e, hread, b, hki ▸ hb, hne'⟩

/-- The invariant holds before the loop. -/
lemma init (hs : s.Captured) (p : Poll n) : LoopInv s p [] ⟨s, acSha256Init, 0, 0, 0, 0, []⟩ :=
  ⟨hs, rfl, rfl, fun i => by simp, rfl, by simp, by simp, by simp, fun h => absurd rfl h⟩

/-- The invariant when all slots are done. -/
lemma checkLoop (hs : s.Captured) (p : Poll n) :
    LoopInv s p (List.finRange n) (Syscalls.checkLoop s p) :=
  foldl_invariant (P := LoopInv s p) (fun _ _ _ hi ha => ha.slot hs hi)
    (List.nodup_finRange n) (.init hs p)

end LoopInv

/-! ### One call -/

section Call

variable {s s' : SyscallTable n} {p : Poll n} {ev : List (Fin n × AcEmit)} {out : AcSyscallCheck}

lemma base_ne_zero_of_check (h : acCheckSyscalls s p = some (s', ev, out)) : s.base ≠ 0 := by
  intro hbase
  simp [acCheckSyscalls, hbase] at h

lemma st_of_check (h : acCheckSyscalls s p = some (s', ev, out)) : (checkLoop s p).st = s' := by
  simp only [acCheckSyscalls, base_ne_zero_of_check h, if_false, Option.some.injEq,
    Prod.mk.injEq] at h
  exact h.1

lemma out_of_check (hs : s.Captured) (h : acCheckSyscalls s p = some (s', ev, out)) :
    out.currentSha256 = acSha256HexDigest (acSha256Final (checkLoop s p).hash) ∧
      out.baselineSha256 = s'.baselineHex ∧
      out.checksumMismatch = decide (out.currentSha256 ≠ out.baselineSha256) ∧
      out.ok = ((checkLoop s p).hooked = 0 && (checkLoop s p).redirected = 0 &&
        !out.checksumMismatch) := by
  have hst := st_of_check h
  have hready : s'.ready = true := hst ▸ (LoopInv.checkLoop hs p).captured.ready
  simp only [acCheckSyscalls, base_ne_zero_of_check h, if_false, Option.some.injEq,
    Prod.mk.injEq, hst, hready, if_true, Bool.true_and] at h
  obtain ⟨-, -, rfl⟩ := h
  exact ⟨rfl, rfl, rfl, rfl⟩

/-- The digests that a call compares. -/
lemma digests_of_check (hs : s.Captured) (h : acCheckSyscalls s p = some (s', ev, out)) :
    out.currentSha256 = acSha256Hex (tableBytes (liveTable s p)) ∧
      out.baselineSha256 = acSha256Hex (tableBytes s'.baseline) := by
  have hinv := LoopInv.checkLoop hs p
  obtain ⟨hcur, hbase, -, -⟩ := out_of_check hs h
  rw [hcur, hinv.hash, hbase, ← st_of_check h, hinv.captured.hex]
  exact ⟨rfl, rfl⟩

lemma known_of_check (hs : s.Captured) (h : acCheckSyscalls s p = some (s', ev, out))
    (i : Fin n) : s'.known i = (s.known i).or (p.read i) := by
  rw [← st_of_check h, (LoopInv.checkLoop hs p).known, if_pos (List.mem_finRange i)]

lemma captured_of_check (hs : s.Captured) (h : acCheckSyscalls s p = some (s', ev, out)) :
    s'.Captured := st_of_check h ▸ (LoopInv.checkLoop hs p).captured

lemma bounds_of_check (hs : s.Captured) (h : acCheckSyscalls s p = some (s', ev, out)) :
    s'.base = s.base ∧ s'.bounds = s.bounds := by
  have hinv := LoopInv.checkLoop hs p
  rw [← st_of_check h]
  exact ⟨hinv.base, hinv.bounds⟩

/-- A call counts the slots it finds hooked, keeps their bits, and emits the event of those whose
bit it sets. -/
lemma hooks_of_check (hs : s.Captured) (h : acCheckSyscalls s p = some (s', ev, out)) :
    out.hooked = (List.finRange n).countP (hookSeen s.bounds p) ∧
      (∀ i, s'.hooked i = nextHooked s p i) ∧
      ev.filterMap hookSlot =
        (List.finRange n).filter fun i => hookSeen s.bounds p i && !s.hooked i := by
  have hinv := LoopInv.checkLoop hs p
  simp only [acCheckSyscalls, base_ne_zero_of_check h, if_false, Option.some.injEq,
    Prod.mk.injEq] at h
  obtain ⟨rfl, rfl, rfl⟩ := h
  refine ⟨hinv.hooked, fun i => ?_, hinv.slots⟩
  rw [hinv.bits, if_pos (List.mem_finRange i)]

/-- The tables that a call compares differ at a slot exactly when it was read and changed. -/
lemma liveTable_ne_iff (hs : s.Captured) (h : acCheckSyscalls s p = some (s', ev, out))
    (i : Fin n) : liveTable s p i ≠ s'.baseline i ↔ ∃ e, p.read i = some e ∧ e ≠ s'.baseline i := by
  rw [liveTable_eq hs, (captured_of_check hs h).baseline, known_of_check hs h]
  cases p.read i with
  | none => simp
  | some e => simp

lemma changed_iff (hs : s.Captured) (h : acCheckSyscalls s p = some (s', ev, out)) (i : Fin n) :
    Changed s p i ↔ ∃ e, p.read i = some e ∧ e ≠ s'.baseline i := by
  rw [(captured_of_check hs h).baseline, known_of_check hs h, Changed]
  cases p.read i with
  | none => simp
  | some e => cases s.known i <;> simp

lemma checksumMismatch_iff (hs : s.Captured) (h : acCheckSyscalls s p = some (s', ev, out))
    (hcoll : NoCollision (tableBytes (liveTable s p)) (tableBytes s'.baseline)) :
    out.checksumMismatch = true ↔ ∃ i e, p.read i = some e ∧ e ≠ s'.baseline i := by
  obtain ⟨-, -, hmis, -⟩ := out_of_check hs h
  obtain ⟨hcur, hbase⟩ := digests_of_check hs h
  rw [hmis, decide_eq_true_iff, hcur, hbase]
  have hdigest : acSha256Hex (tableBytes (liveTable s p)) = acSha256Hex (tableBytes s'.baseline) ↔
      liveTable s p = s'.baseline :=
    ⟨fun heq => tableBytes_injective (hcoll heq), fun heq => by rw [heq]⟩
  rw [ne_eq, hdigest, funext_iff, not_forall]
  exact exists_congr fun i => liveTable_ne_iff hs h i

lemma ok_iff (hs : s.Captured) (h : acCheckSyscalls s p = some (s', ev, out))
    (hcoll : NoCollision (tableBytes (liveTable s p)) (tableBytes s'.baseline)) :
    out.ok = true ↔ ∀ i e, p.read i = some e → e = s'.baseline i ∧
      (e ≠ 0 → s.bounds.acEntryBadSnapshot e p.ranges (p.inModule i).2 = false) := by
  have hinv := LoopInv.checkLoop hs p
  obtain ⟨-, -, -, hok⟩ := out_of_check hs h
  have hmis := checksumMismatch_iff hs h hcoll
  have hhook : (checkLoop s p).hooked = 0 ↔ ∀ i e, p.read i = some e → e ≠ 0 →
      s.bounds.acEntryBadSnapshot e p.ranges (p.inModule i).2 = false := by
    rw [hinv.hooked, List.countP_eq_zero]
    constructor
    · intro hno i e he hne
      simpa [hookSeen, he, hne] using hno i (List.mem_finRange i)
    · intro hno i _
      cases he : p.read i with
      | none => simp [hookSeen, he]
      | some e => simpa [hookSeen, he] using hno i e he
  rw [hok, Bool.and_eq_true, Bool.and_eq_true, Bool.not_eq_true', decide_eq_true_iff,
    decide_eq_true_iff, hhook, ← Bool.not_eq_true, hmis]
  constructor
  · rintro ⟨⟨hh, -⟩, hm⟩ i e he
    exact ⟨not_ne_iff.mp fun hne => hm ⟨i, e, he, hne⟩, hh i e he⟩
  · intro hall
    have hm : ¬ ∃ i e, p.read i = some e ∧ e ≠ s'.baseline i := by
      rintro ⟨i, e, he, hne⟩
      exact hne (hall i e he).1
    refine ⟨⟨fun i e he => (hall i e he).2, ?_⟩, hm⟩
    -- a redirected slot is a changed one, which the digests show too
    by_contra hr
    obtain ⟨i, -, hch⟩ := hinv.redirected hr
    exact hm ⟨i, (changed_iff hs h i).mp hch⟩

end Call

/-! ### Sequences of calls -/

/-- The table after the capture at load and a sequence of calls. -/
def tableAfter (base : UInt64) (k : TextBounds) (read : Fin n → Option UInt64)
    (ps : List (Poll n)) : SyscallTable n :=
  polls (acCaptureSyscallBaseline (.init base k) read) ps

lemma exists_check {s : SyscallTable n} (hbase : s.base ≠ 0) (p : Poll n) :
    ∃ s' ev out, acCheckSyscalls s p = some (s', ev, out) := by
  simp [acCheckSyscalls, hbase]

/-- A sequence of calls keeps the table captured and located, and each slot trusts its first
reading. -/
lemma polls_spec {s : SyscallTable n} (hs : s.Captured) (hbase : s.base ≠ 0) (ps : List (Poll n)) :
    (polls s ps).Captured ∧ (polls s ps).base = s.base ∧ (polls s ps).bounds = s.bounds ∧
      ∀ i, (polls s ps).known i = (s.known i).or (firstRead (ps.map Poll.read) i) := by
  induction ps generalizing s with
  | nil => exact ⟨hs, rfl, rfl, fun i => by simp [polls, firstRead]⟩
  | cons p ps ih =>
    obtain ⟨s', ev, out, h⟩ := exists_check hbase p
    obtain ⟨hb, hk⟩ := bounds_of_check hs h
    rw [show polls s (p :: ps) = polls s' ps by simp [polls, h]]
    obtain ⟨hcap, hbase', hbounds, hknown⟩ := ih (captured_of_check hs h) (hb ▸ hbase)
    refine ⟨hcap, hbase'.trans hb, hbounds.trans hk, fun i => ?_⟩
    rw [hknown, known_of_check hs h, Option.or_assoc]
    cases hread : p.read i <;> simp [firstRead, hread]

lemma polls_append (s : SyscallTable n) (ps qs : List (Poll n)) :
    polls s (ps ++ qs) = polls (polls s ps) qs := by
  induction ps generalizing s with
  | nil => rfl
  | cons p ps ih =>
    simp only [List.cons_append, polls]
    split <;> exact ih _

lemma captured_iff_known {s : SyscallTable n} {i : Fin n} :
    s.captured i = true ↔ s.known i = some (s.baseline i) := by
  simp [SyscallTable.known]

lemma captured_of_known {s : SyscallTable n} {i : Fin n} {b : UInt64} (h : s.known i = some b) :
    s.captured i = true ∧ s.baseline i = b := by
  simpa [SyscallTable.known] using h

section TableAfter

variable {base : UInt64} (k : TextBounds) (read : Fin n → Option UInt64) (ps : List (Poll n))

lemma tableAfter_spec (hbase : base ≠ 0) : (tableAfter base k read ps).Captured ∧
    (tableAfter base k read ps).base ≠ 0 ∧ (tableAfter base k read ps).bounds = k ∧
      ∀ i, (tableAfter base k read ps).known i = firstRead (read :: ps.map Poll.read) i := by
  obtain ⟨hcap, hbase', hbounds, hknown⟩ :=
    polls_spec (captured_capture hbase k read) (by rwa [base_capture]) ps
  rw [base_capture] at hbase'
  rw [bounds_capture] at hbounds
  refine ⟨hcap, ?_, hbounds, fun i => ?_⟩
  · rw [tableAfter, hbase']
    exact hbase
  rw [tableAfter, hknown, known_capture hbase]
  cases hread : read i <;> simp [firstRead, hread]

/-- Without a table nothing is captured, and every call fails. -/
lemma tableAfter_zero : tableAfter 0 k read ps = .init 0 k := by
  simp only [tableAfter, acCaptureSyscallBaseline, SyscallTable.init, if_true]
  induction ps with
  | nil => rfl
  | cons p ps ih => simpa [polls, acCheckSyscalls] using ih

lemma tableAfter_concat {p : Poll n} {s' : SyscallTable n} {ev : List (Fin n × AcEmit)}
    {out : AcSyscallCheck}
    (h : acCheckSyscalls (tableAfter base k read ps) p = some (s', ev, out)) :
    tableAfter base k read (ps ++ [p]) = s' := by
  rw [tableAfter, polls_append]
  change polls (tableAfter base k read ps) [p] = s'
  simp [polls, h]

/-- A slot keeps the entry that it once trusted. -/
lemma baseline_tableAfter_append {i : Fin n} (hi : (tableAfter base k read ps).captured i = true)
    (qs : List (Poll n)) : (tableAfter base k read (ps ++ qs)).captured i = true ∧
      (tableAfter base k read (ps ++ qs)).baseline i = (tableAfter base k read ps).baseline i := by
  by_cases hbase : base = 0
  · subst hbase
    rw [tableAfter_zero] at hi
    cases hi
  · obtain ⟨hcap, hb, -, -⟩ := tableAfter_spec k read ps hbase
    obtain ⟨-, -, -, hknown⟩ := polls_spec hcap hb qs
    apply captured_of_known
    rw [tableAfter, polls_append]
    rw [captured_iff_known] at hi
    exact (hknown i).trans (by rw [hi, Option.some_or])

end TableAfter

/-- After any sequence of calls, each with any table contents, any failed reads and any modules
loaded: a slot trusts the value of its first successful read, and keeps it; a call reports a
mismatch exactly when it read an entry that is not the trusted one, and is content exactly when
every entry that it read is the trusted one and points into the core text. -/
theorem acCheckSyscalls_sound (base : UInt64) (k : TextBounds) (read : Fin n → Option UInt64)
    (ps : List (Poll n)) :
    (base ≠ 0 → ∀ i, (tableAfter base k read ps).known i =
      firstRead (read :: ps.map Poll.read) i) ∧
    (∀ i, (tableAfter base k read ps).captured i = true → ∀ qs,
      (tableAfter base k read (ps ++ qs)).captured i = true ∧
      (tableAfter base k read (ps ++ qs)).baseline i = (tableAfter base k read ps).baseline i) ∧
    ∀ p s' ev out, acCheckSyscalls (tableAfter base k read ps) p = some (s', ev, out) →
      s' = tableAfter base k read (ps ++ [p]) ∧
      out.currentSha256 = acSha256Hex (tableBytes (liveTable (tableAfter base k read ps) p)) ∧
      out.baselineSha256 = acSha256Hex (tableBytes s'.baseline) ∧
      (NoCollision (tableBytes (liveTable (tableAfter base k read ps) p))
          (tableBytes s'.baseline) →
        (out.checksumMismatch = true ↔ ∃ i e, p.read i = some e ∧ e ≠ s'.baseline i) ∧
        (out.ok = true ↔ ∀ i e, p.read i = some e → e = s'.baseline i ∧
          (e ≠ 0 → k.acEntryBadSnapshot e p.ranges (p.inModule i).2 = false))) := by
  refine ⟨fun hbase => (tableAfter_spec k read ps hbase).2.2.2,
    fun i hi qs => baseline_tableAfter_append k read ps hi qs, fun p s' ev out h => ?_⟩
  have hbase : base ≠ 0 := by
    rintro rfl
    exact base_ne_zero_of_check h (by rw [tableAfter_zero]; rfl)
  obtain ⟨hcap, -, hbounds, -⟩ := tableAfter_spec k read ps hbase
  obtain ⟨hcur, hsha⟩ := digests_of_check hcap h
  refine ⟨(tableAfter_concat k read ps h).symm, hcur, hsha,
    fun hcoll => ⟨checksumMismatch_iff hcap h hcoll, ?_⟩⟩
  rw [ok_iff hcap h hcoll, hbounds]

/-! The table of two slots at `base`, with the bounds known: slot 1 cannot be read at load, is read
at the first call, and slot 0 is redirected before the second. -/

def sampleBounds : TextBounds := ⟨0x1000, 0x2000, 0⟩

def samplePoll (e₀ e₁ : Option UInt64) : Poll 2 :=
  ⟨fun i => if i = 0 then e₀ else e₁, some [], fun _ => (false, false)⟩

/-- The table of the sample after the first call. -/
def sampleTable : SyscallTable 2 :=
  tableAfter 0x5000 sampleBounds (samplePoll (some 0x1100) none).read
    [samplePoll none (some 0x1200)]

/-- The answer to the second call. -/
def sampleCall : Option (SyscallTable 2 × List (Fin 2 × AcEmit) × AcSyscallCheck) :=
  acCheckSyscalls sampleTable (samplePoll (some 0x1300) (some 0x1200))

lemma sampleCall_isSome : sampleCall.isSome = true := by decide +kernel

lemma sampleCall_noCollision : NoCollision
    (tableBytes (liveTable sampleTable (samplePoll (some 0x1300) (some 0x1200))))
    (tableBytes (sampleCall.get sampleCall_isSome).1.baseline) := by decide +kernel

theorem acCheckSyscalls_sound_redirected :
    (sampleTable.known 1 = some 0x1200) ∧
      (sampleCall.get sampleCall_isSome).2.2.checksumMismatch = true := by
  have hsound := acCheckSyscalls_sound 0x5000 sampleBounds (samplePoll (some 0x1100) none).read
    [samplePoll none (some 0x1200)]
  refine ⟨hsound.1 (by decide) 1, ?_⟩
  obtain ⟨-, -, -, hout⟩ := hsound.2.2 (samplePoll (some 0x1300) (some 0x1200)) _ _ _
    (Option.some_get sampleCall_isSome).symm
  exact (hout sampleCall_noCollision).1.mpr ⟨0, 0x1300, rfl, by decide +kernel⟩

end Anticheat.Syscalls
