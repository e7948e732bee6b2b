import Anticheat.Syscalls.Bounds
import Anticheat.Syscalls.Edges

/-!
# Finding the syscall table

At load the module looks for the table by its first two handlers: `ac_find_syscall_table` scans a
window of memory for an address that holds the read handler, followed by the write handler, and at
which there are enough plausible handlers. It finds such an address exactly if there is one in its
two windows, and then the first one it comes to. The bounds and the baseline are then taken from
what it found, and as long as nobody writes to the table every later check is content and silent.
-/

namespace Anticheat.Syscalls

open Transition

/-- What `ac_kread` finds in memory: the 8 and the 4 bytes at an address, unless it fails. -/
structure KMem where
  word : UInt64 → Option UInt64
  insn : UInt64 → Option UInt32

/-- `ac_normalize_func` -/
def acNormalizeFunc (mem : KMem) (addr : UInt64) : UInt64 :=
  if addr = 0 then 0
  else if addr < 4 then addr
  else
    match mem.insn (addr - 4) with
    -- endbr64
    | some insn => if insn = 0xfa1e0ff3 then addr - 4 else addr
    | none => addr

/-- `__NR_read` -/
def nrRead : UInt64 := 0

/-- `__NR_write` -/
def nrWrite : UInt64 := 1

/-- The slots of a table of `n` entries. -/
def KMem.slots {n : ℕ} (mem : KMem) (base : UInt64) (i : Fin n) : Option UInt64 :=
  mem.word (base + UInt64.ofNat i * 8)

/-- The loop of `ac_table_plausible`, which is left as soon as there are 400. -/
def plausibleLoop (ring : List LoadedModule) (anchor : UInt64) :
    List (Option UInt64) → ℕ → Bool
  | [], valid => 400 ≤ valid
  | none :: es, valid => plausibleLoop ring anchor es valid
  | some e :: es, valid =>
    if e = 0 then plausibleLoop ring anchor es valid
    else if acPlausibleHandler ring e anchor then
      if 400 ≤ valid + 1 then true else plausibleLoop ring anchor es (valid + 1)
    else plausibleLoop ring anchor es valid

/-- `ac_table_plausible` -/
def acTablePlausible (ring : List LoadedModule) (entries : List (Option UInt64))
    (anchor : UInt64) : Bool :=
  plausibleLoop ring anchor entries 0

section Find

variable (n : ℕ) (mem : KMem) (ring : List LoadedModule) (lookup : String → UInt64)

/-- The entries of the table, in order. -/
def KMem.entries (base : UInt64) : List (Option UInt64) :=
  (List.finRange n).map fun i => mem.slots base i

/-- The body of both loops: whether there is a table whose slot `__NR_read` is at `addr`. -/
def tableAt (rh wh addr : UInt64) : Bool :=
  match mem.word addr with
  | none => false
  | some v1 =>
    if v1 ≠ rh then false
    else
      let base := addr - nrRead * 8
      match mem.word (base + nrWrite * 8) with
      | none => false
      | some v2 => v2 = wh && acTablePlausible ring (mem.entries n base) rh

/-- The size of a window. -/
def scanWindow : UInt64 := 0x2000000

/-- The turns that a loop over a window has at most. -/
def scanTurns : ℕ := 0x400000

/-- The forward loop; the last argument but one bounds its turns. -/
def scanUp (test : UInt64 → Bool) (hi : UInt64) : ℕ → UInt64 → Option UInt64
  | 0, _ => none
  | turns + 1, addr =>
    if addr < hi then
      if test addr then some (addr - nrRead * 8) else scanUp test hi turns (addr + 8)
    else none

/-- The backward loop. -/
def scanDown (test : UInt64 → Bool) (lo : UInt64) : ℕ → UInt64 → Option UInt64
  | 0, _ => none
  | turns + 1, addr =>
    if lo < addr then
      if test addr then some (addr - nrRead * 8) else scanDown test lo turns (addr - 8)
    else none

/-- What `ac_find_syscall_table` returns and leaves: the table, 0 if there is none, the bounds and
`ac_anchor`. -/
structure Located where
  base : UInt64
  bounds : BoundState
  anchor : UInt64
  deriving DecidableEq, Repr

/-- Where the forward loop begins. -/
def scanStart (s : BoundState) (rh : UInt64) : UInt64 :=
  if s.etext ≠ 0 then s.etext else if s.stext ≠ 0 then s.stext else rh

/-- `ac_find_syscall_table` -/
def acFindSyscallTable (s : BoundState) : Located :=
  let rh := acNormalizeFunc mem (lookup "__x64_sys_read")
  let wh := acNormalizeFunc mem (lookup "__x64_sys_write")
  if rh = 0 || wh = 0 then ⟨0, s, 0⟩
  else
    let lo := scanStart s rh
    match scanUp (tableAt n mem ring rh wh) (lo + scanWindow) scanTurns lo with
    | some base => ⟨base, acDeriveBounds ring (mem.entries n base) rh s, rh⟩
    | none =>
      match scanDown (tableAt n mem ring rh wh) (rh - scanWindow) scanTurns rh with
      | some base => ⟨base, acDeriveBounds ring (mem.entries n base) rh s, rh⟩
      | none => ⟨0, s, 0⟩

/-- The part of `ac_init` that prepares the check. -/
def acInitSyscalls : SyscallTable n :=
  let l := acFindSyscallTable n mem ring lookup (acResolveTextBounds lookup)
  let s : SyscallTable n := .init l.base ⟨l.bounds.stext, l.bounds.textEnd, l.anchor⟩
  if l.base ≠ 0 then acCaptureSyscallBaseline s (mem.slots l.base) else s

end Find

/-! ### The loops -/

section Loops

lemma plausibleLoop_eq (ring : List LoadedModule) (anchor : UInt64) (es : List (Option UInt64))
    (valid : ℕ) (hvalid : valid < 400) : plausibleLoop ring anchor es valid =
      decide (400 ≤ valid + es.countP fun o => o.any (acPlausibleHandler ring · anchor)) := by
  induction es generalizing valid with
  | nil => simp [plausibleLoop]
  | cons o es ih =>
    cases o with
    | none => simpa [plausibleLoop] using ih valid hvalid
    | some e =>
      rw [plausibleLoop]
      cases hacc : acPlausibleHandler ring e anchor with
      | false => simpa [hacc] using ih valid hvalid
      | true =>
        have h0 : e ≠ 0 := by
          rintro rfl
          cases hacc
        rw [if_neg h0, if_pos rfl]
        by_cases hfull : 400 ≤ valid + 1
        · rw [if_pos hfull, List.countP_cons_of_pos (by simpa using hacc)]
          exact (decide_eq_true (by omega)).symm
        · rw [if_neg hfull, ih _ (by omega), List.countP_cons_of_pos (by simpa using hacc),
            Nat.add_assoc, Nat.add_comm 1]

/-- The handlers of the table that are plausible. -/
def plausibleSlots {n : ℕ} (mem : KMem) (ring : List LoadedModule) (rh base : UInt64) :
    List (Fin n) :=
  (List.finRange n).filter fun i => (mem.slots base i).any (acPlausibleHandler ring · rh)

/-- A table as the module looks for it. -/
structure IsTable (n : ℕ) (mem : KMem) (ring : List LoadedModule) (rh wh base : UInt64) :
    Prop where
  read : mem.word base = some rh
  write : mem.word (base + 8) = some wh
  enough : 400 ≤ (plausibleSlots (n := n) mem ring rh base).length

lemma sub_nrRead (addr : UInt64) : addr - nrRead * 8 = addr := by
  rw [show nrRead * 8 = 0 from rfl, UInt64.sub_zero]

lemma tableAt_iff {n : ℕ} {mem : KMem} {ring : List LoadedModule} {rh wh addr : UInt64} :
    tableAt n mem ring rh wh addr = true ↔ IsTable n mem ring rh wh addr := by
  have hplausible : acTablePlausible ring (mem.entries n addr) rh = true ↔
      400 ≤ (plausibleSlots (n := n) mem ring rh addr).length := by
    rw [acTablePlausible, plausibleLoop_eq _ _ _ _ (by decide), decide_eq_true_iff, KMem.entries,
      List.countP_map, plausibleSlots, ← List.countP_eq_length_filter, Nat.zero_add]
    rfl
  unfold tableAt
  simp only [sub_nrRead]
  constructor
  · intro h
    split at h
    · cases h
    · rename_i v1 hv1
      split_ifs at h with hne
      split at h
      · cases h
      · rename_i v2 hv2
        rw [Bool.and_eq_true, decide_eq_true_iff, hplausible] at h
        exact ⟨by rw [hv1, not_not.mp hne], by rw [← h.1]; exact hv2, h.2⟩
  · rintro ⟨hread, hwrite, hmany⟩
    rw [hread]
    simp only [ne_eq, not_true_eq_false, if_false]
    rw [show nrWrite * 8 = 8 from rfl, hwrite]
    simpa using hplausible.mpr hmany

variable {test : UInt64 → Bool}

/-- The addresses that the loops look at, from an address upwards and downwards. -/
def upFrom (addr : UInt64) (turns : ℕ) : List UInt64 :=
  (List.range turns).map fun k => addr + UInt64.ofNat k * 8

def downFrom (addr : UInt64) (turns : ℕ) : List UInt64 :=
  (List.range turns).map fun k => addr - UInt64.ofNat k * 8

lemma upFrom_succ (addr : UInt64) (turns : ℕ) :
    upFrom addr (turns + 1) = addr :: upFrom (addr + 8) turns := by
  simp only [upFrom, List.range_succ_eq_map, List.map_cons, List.map_map, List.cons.injEq]
  refine ⟨UInt64.add_zero addr, congrArg (List.map · _) (funext fun k => ?_)⟩
  simp only [Function.comp_apply, Nat.succ_eq_add_one]
  rw [UInt64.ofNat_add, UInt64.add_mul, UInt64.add_assoc, UInt64.add_comm 8]
  rfl

lemma downFrom_succ (addr : UInt64) (turns : ℕ) :
    downFrom addr (turns + 1) = addr :: downFrom (addr - 8) turns := by
  simp only [downFrom, List.range_succ_eq_map, List.map_cons, List.map_map, List.cons.injEq]
  refine ⟨UInt64.sub_zero addr, congrArg (List.map · _) (funext fun k => ?_)⟩
  simp only [Function.comp_apply, Nat.succ_eq_add_one]
  rw [UInt64.ofNat_add, UInt64.add_mul]
  grind

/-- The forward loop is left at the end of its window at the latest, however many turns it may
take, and returns the first address that passes. -/
lemma scanUp_eq (hi : UInt64) (turns more : ℕ) (addr : UInt64)
    (hwindow : addr.toNat + 8 * turns = hi.toNat) :
    scanUp test hi (turns + more) addr = (upFrom addr turns).find? test := by
  induction turns generalizing addr with
  | zero =>
    have hstop : ¬ addr < hi := by
      rw [UInt64.lt_iff_toNat_lt]
      omega
    cases more with
    | zero => rfl
    | succ more => rw [Nat.zero_add, scanUp, if_neg hstop]; rfl
  | succ turns ih =>
    have hlt : addr < hi := by
      rw [UInt64.lt_iff_toNat_lt]
      omega
    have hnext : (addr + 8).toNat + 8 * turns = hi.toNat := by
      have hbound := hi.toNat_lt
      simp only [UInt64.toNat_add, UInt64.reduceToNat]
      omega
    rw [Nat.succ_add, scanUp, if_pos hlt, upFrom_succ, List.find?_cons]
    cases htest : test addr with
    | true => simp [sub_nrRead]
    | false => simpa using ih _ hnext

lemma scanDown_eq (lo : UInt64) (turns more : ℕ) (addr : UInt64)
    (hwindow : addr.toNat = lo.toNat + 8 * turns) :
    scanDown test lo (turns + more) addr = (downFrom addr turns).find? test := by
  induction turns generalizing addr with
  | zero =>
    have hstop : ¬ lo < addr := by
      rw [UInt64.lt_iff_toNat_lt]
      omega
    cases more with
    | zero => rfl
    | succ more => rw [Nat.zero_add, scanDown, if_neg hstop]; rfl
  | succ turns ih =>
    have hlt : lo < addr := by
      rw [UInt64.lt_iff_toNat_lt]
      omega
    have hnext : (addr - 8).toNat = lo.toNat + 8 * turns := by
      have hbound := addr.toNat_lt
      simp only [UInt64.toNat_sub, UInt64.reduceToNat]
      omega
    rw [Nat.succ_add, scanDown, if_pos hlt, downFrom_succ, List.find?_cons]
    cases htest : test addr with
    | true => simp [sub_nrRead]
    | false => simpa using ih _ hnext

/-- A loop whose bound wraps around is not entered. -/
lemma scanUp_eq_none {hi addr : UInt64} (h : hi ≤ addr) (turns : ℕ) :
    scanUp test hi turns addr = none := by
  cases turns with
  | zero => rfl
  | succ turns => rw [scanUp, if_neg (UInt64.not_lt.mpr h)]

lemma scanDown_eq_none {lo addr : UInt64} (h : addr ≤ lo) (turns : ℕ) :
    scanDown test lo turns addr = none := by
  cases turns with
  | zero => rfl
  | succ turns => rw [scanDown, if_neg (UInt64.not_lt.mpr h)]

/-! ### The windows -/

/-- The addresses of the forward window, 32 MiB from `lo` on; there is none if it would not fit. -/
def InForward (lo addr : UInt64) : Prop :=
  lo.toNat + 0x2000000 < 2 ^ 64 ∧ lo ≤ addr ∧ addr.toNat < lo.toNat + 0x2000000 ∧
    8 ∣ addr.toNat - lo.toNat

/-- The addresses of the backward window, 32 MiB down from the read handler. -/
def InBackward (rh addr : UInt64) : Prop :=
  0x2000000 ≤ rh.toNat ∧ addr ≤ rh ∧ rh.toNat < addr.toNat + 0x2000000 ∧
    8 ∣ rh.toNat - addr.toNat

lemma toNat_add_words {lo : UInt64} {k : ℕ} (h : lo.toNat + k * 8 < 2 ^ 64) :
    (lo + UInt64.ofNat k * 8).toNat = lo.toNat + k * 8 := by
  simp only [UInt64.toNat_add, UInt64.toNat_mul, UInt64.toNat_ofNat', UInt64.reduceToNat]
  omega

lemma toNat_sub_words {rh : UInt64} {k : ℕ} (h : k * 8 ≤ rh.toNat) :
    (rh - UInt64.ofNat k * 8).toNat = rh.toNat - k * 8 := by
  have hrh := rh.toNat_lt
  simp only [UInt64.toNat_sub, UInt64.toNat_mul, UInt64.toNat_ofNat', UInt64.reduceToNat]
  omega

lemma mem_upFrom {lo addr : UInt64} (hfit : lo.toNat + 0x2000000 < 2 ^ 64) :
    addr ∈ upFrom lo scanTurns ↔ InForward lo addr := by
  simp only [upFrom, List.mem_map, List.mem_range, InForward, UInt64.le_iff_toNat_le, scanTurns]
  constructor
  · rintro ⟨k, hk, rfl⟩
    rw [toNat_add_words (by omega)]
    exact ⟨hfit, by omega, by omega, by omega⟩
  · rintro ⟨-, hle, hlt, k, hk⟩
    refine ⟨k, by omega, UInt64.toNat_inj.mp ?_⟩
    rw [toNat_add_words (by omega)]
    omega

lemma mem_downFrom {rh addr : UInt64} (hfit : 0x2000000 ≤ rh.toNat) :
    addr ∈ downFrom rh scanTurns ↔ InBackward rh addr := by
  simp only [downFrom, List.mem_map, List.mem_range, InBackward, UInt64.le_iff_toNat_le, scanTurns]
  constructor
  · rintro ⟨k, hk, rfl⟩
    rw [toNat_sub_words (by omega)]
    exact ⟨hfit, by omega, by omega, by omega⟩
  · rintro ⟨-, hle, hlt, k, hk⟩
    refine ⟨k, by omega, UInt64.toNat_inj.mp ?_⟩
    rw [toNat_sub_words (by omega)]
    omega

lemma pairwise_upFrom {lo : UInt64} (hfit : lo.toNat + 0x2000000 < 2 ^ 64) :
    (upFrom lo scanTurns).Pairwise (· ≤ ·) := by
  refine List.pairwise_map.mpr (List.pairwise_lt_range.imp_of_mem fun {k k'} _ hk' hlt => ?_)
  rw [List.mem_range, scanTurns] at hk'
  rw [UInt64.le_iff_toNat_le, toNat_add_words (by omega), toNat_add_words (by omega)]
  omega

lemma pairwise_downFrom {rh : UInt64} (hfit : 0x2000000 ≤ rh.toNat) :
    (downFrom rh scanTurns).Pairwise (· ≥ ·) := by
  refine List.pairwise_map.mpr (List.pairwise_lt_range.imp_of_mem fun {k k'} _ hk' hlt => ?_)
  rw [List.mem_range, scanTurns] at hk'
  rw [ge_iff_le, UInt64.le_iff_toNat_le, toNat_sub_words (by omega), toNat_sub_words (by omega)]
  omega

/-- What a loop over a sorted window finds is the first address of it that passes. -/
lemma find?_eq_some_of_iff {l : List UInt64} {P : UInt64 → Prop} {R : UInt64 → UInt64 → Prop}
    (hmem : ∀ a, a ∈ l ↔ P a) (hsorted : l.Pairwise R) (hrefl : ∀ a, R a a) :
    (∀ a, l.find? test = some a → P a ∧ test a = true ∧ ∀ b, P b → test b = true → R a b) ∧
      (l.find? test = none → ∀ a, P a → test a = false) := by
  refine ⟨fun a h => ⟨(hmem a).mp (List.mem_of_find?_eq_some h), List.find?_some h, ?_⟩,
    fun h a ha => by simpa using List.find?_eq_none.mp h a ((hmem a).mpr ha)⟩
  intro b hb htest
  obtain ⟨-, as, bs, rfl, has⟩ := List.find?_eq_some_iff_append.mp h
  rcases List.mem_append.mp ((hmem b).mpr hb) with hb | hb
  · have hpassed := has b hb
    rw [htest] at hpassed
    cases hpassed
  · rcases List.mem_cons.mp hb with rfl | hb
    · exact hrefl b
    · exact (List.pairwise_cons.mp (List.pairwise_append.mp hsorted).2.1).1 b hb

/-- The forward scan finds the lowest address of its window that passes, if there is one. -/
lemma scanUp_spec (test : UInt64 → Bool) (lo : UInt64) (more : ℕ) :
    (∀ a, scanUp test (lo + scanWindow) (scanTurns + more) lo = some a →
      InForward lo a ∧ test a = true ∧ ∀ b, InForward lo b → test b = true → a ≤ b) ∧
    (scanUp test (lo + scanWindow) (scanTurns + more) lo = none →
      ∀ a, InForward lo a → test a = false) := by
  by_cases hfit : lo.toNat + 0x2000000 < 2 ^ 64
  · rw [scanUp_eq]
    · exact find?_eq_some_of_iff (fun a => mem_upFrom hfit) (pairwise_upFrom hfit)
        fun a => UInt64.le_refl a
    · simp only [scanWindow, scanTurns, UInt64.toNat_add, UInt64.reduceToNat]
      omega
  · rw [scanUp_eq_none]
    · exact ⟨by simp, fun _ a ha => absurd ha.1 hfit⟩
    · have hlo := lo.toNat_lt
      simp only [UInt64.le_iff_toNat_le, scanWindow, UInt64.toNat_add, UInt64.reduceToNat]
      omega

/-- The backward scan finds the highest one. -/
lemma scanDown_spec (test : UInt64 → Bool) (rh : UInt64) (more : ℕ) :
    (∀ a, scanDown test (rh - scanWindow) (scanTurns + more) rh = some a →
      InBackward rh a ∧ test a = true ∧ ∀ b, InBackward rh b → test b = true → b ≤ a) ∧
    (scanDown test (rh - scanWindow) (scanTurns + more) rh = none →
      ∀ a, InBackward rh a → test a = false) := by
  have hrh := rh.toNat_lt
  by_cases hfit : 0x2000000 ≤ rh.toNat
  · rw [scanDown_eq]
    · exact find?_eq_some_of_iff (fun a => mem_downFrom hfit) (pairwise_downFrom hfit)
        fun a => UInt64.le_refl a
    · simp only [scanWindow, scanTurns, UInt64.toNat_sub, UInt64.reduceToNat]
      omega
  · rw [scanDown_eq_none]
    · exact ⟨by simp, fun _ a ha => absurd ha.1 hfit⟩
    · simp only [UInt64.le_iff_toNat_le, scanWindow, UInt64.toNat_sub, UInt64.reduceToNat]
      omega

end Loops

/-! ### What is found -/

section Found

variable (n : ℕ) (mem : KMem) (ring : List LoadedModule) (lookup : String → UInt64)
  (s : BoundState)

/-- The handlers that the table is recognised by. -/
def readHandler : UInt64 :=
  acNormalizeFunc mem (lookup "__x64_sys_read")

def writeHandler : UInt64 :=
  acNormalizeFunc mem (lookup "__x64_sys_write")

/-- The addresses that are looked at. -/
def InWindow (rh addr : UInt64) : Prop :=
  InForward (scanStart s rh) addr ∨ InBackward rh addr

/-- The first table in the order of the scans: the lowest one of the forward window, or if there is
none the highest one of the backward window. -/
def IsFirstTable (rh wh base : UInt64) : Prop :=
  IsTable n mem ring rh wh base ∧
    ((InForward (scanStart s rh) base ∧
        ∀ b, InForward (scanStart s rh) b → IsTable n mem ring rh wh b → base ≤ b) ∨
      ((∀ b, InForward (scanStart s rh) b → ¬ IsTable n mem ring rh wh b) ∧ InBackward rh base ∧
        ∀ b, InBackward rh b → IsTable n mem ring rh wh b → b ≤ base))

variable {n mem ring s} in
lemma IsFirstTable.inWindow {rh wh base : UInt64} (h : IsFirstTable n mem ring s rh wh base) :
    InWindow s rh base :=
  h.2.imp (fun h => h.1) fun h => h.2.1

/-- What the search comes to: nothing, because a handler is not known or no address passes, or the
first table in the windows, with the bounds derived from it. -/
lemma acFindSyscallTable_cases :
    (acFindSyscallTable n mem ring lookup s = ⟨0, s, 0⟩ ∧
      (readHandler mem lookup = 0 ∨ writeHandler mem lookup = 0 ∨
        ∀ a, InWindow s (readHandler mem lookup) a →
          ¬ IsTable n mem ring (readHandler mem lookup) (writeHandler mem lookup) a)) ∨
    ∃ base, readHandler mem lookup ≠ 0 ∧ writeHandler mem lookup ≠ 0 ∧
      IsFirstTable n mem ring s (readHandler mem lookup) (writeHandler mem lookup) base ∧
      acFindSyscallTable n mem ring lookup s =
        ⟨base, acDeriveBounds ring (mem.entries n base) (readHandler mem lookup) s,
          readHandler mem lookup⟩ := by
  have hnot : ∀ {rh wh a : UInt64}, tableAt n mem ring rh wh a = false →
      ¬ IsTable n mem ring rh wh a := fun h ht => by
    rw [← tableAt_iff, h] at ht
    cases ht
  unfold acFindSyscallTable readHandler writeHandler
  generalize acNormalizeFunc mem (lookup "__x64_sys_read") = rh
  generalize acNormalizeFunc mem (lookup "__x64_sys_write") = wh
  simp only [Bool.or_eq_true, decide_eq_true_eq]
  by_cases hzero : rh = 0 ∨ wh = 0
  · rw [if_pos hzero]
    exact .inl ⟨rfl, hzero.imp_right .inl⟩
  rw [if_neg hzero]
  obtain ⟨hrh, hwh⟩ := not_or.mp hzero
  obtain ⟨hup, hupNone⟩ := scanUp_spec (tableAt n mem ring rh wh) (scanStart s rh) 0
  obtain ⟨hdown, hdownNone⟩ := scanDown_spec (tableAt n mem ring rh wh) rh 0
  rw [Nat.add_zero] at hup hupNone hdown hdownNone
  cases hforward : scanUp (tableAt n mem ring rh wh) (scanStart s rh + scanWindow) scanTurns
      (scanStart s rh) with
  | some base =>
    obtain ⟨hin, htest, hleast⟩ := hup base hforward
    refine .inr ⟨base, hrh, hwh, ⟨tableAt_iff.mp htest, .inl ⟨hin, fun b hb ht => ?_⟩⟩, rfl⟩
    exact hleast b hb (tableAt_iff.mpr ht)
  | none =>
    have hnone := fun a ha => hnot (hupNone hforward a ha)
    cases hbackward : scanDown (tableAt n mem ring rh wh) (rh - scanWindow) scanTurns rh with
    | some base =>
      obtain ⟨hin, htest, hgreatest⟩ := hdown base hbackward
      refine .inr ⟨base, hrh, hwh, ⟨tableAt_iff.mp htest, .inr ⟨hnone, hin, fun b hb ht => ?_⟩⟩,
        rfl⟩
      exact hgreatest b hb (tableAt_iff.mpr ht)
    | none =>
      refine .inl ⟨rfl, .inr (.inr fun a ha => ?_)⟩
      rcases ha with ha | ha
      · exact hnone a ha
      · exact hnot (hdownNone hbackward a ha)

variable {s} in
lemma scanStart_ne_zero {rh : UInt64} (hrh : rh ≠ 0) : scanStart s rh ≠ 0 := by
  unfold scanStart
  split_ifs <;> assumption

variable {s} in
lemma InWindow.ne_zero {rh addr : UInt64} (hrh : rh ≠ 0) (h : InWindow s rh addr) : addr ≠ 0 := by
  rintro rfl
  rcases h with ⟨-, hle, -, -⟩ | ⟨hfit, -, hlt, -⟩
  · have hstart := scanStart_ne_zero (s := s) hrh
    rw [← UInt64.toNat_inj.ne, UInt64.toNat_zero] at hstart
    rw [UInt64.le_iff_toNat_le, UInt64.toNat_zero] at hle
    omega
  · rw [UInt64.toNat_zero] at hlt
    omega

/-- `ac_find_syscall_table` finds a table exactly if both handlers can be looked up and there is
one in the two windows; what it returns is the first one in the order of the scans, and the read
handler becomes the anchor. -/
theorem acFindSyscallTable_found_iff :
    ((acFindSyscallTable n mem ring lookup s).base ≠ 0 ↔
      readHandler mem lookup ≠ 0 ∧ writeHandler mem lookup ≠ 0 ∧
        ∃ addr, InWindow s (readHandler mem lookup) addr ∧
          IsTable n mem ring (readHandler mem lookup) (writeHandler mem lookup) addr) ∧
    ((acFindSyscallTable n mem ring lookup s).base ≠ 0 →
      IsFirstTable n mem ring s (readHandler mem lookup) (writeHandler mem lookup)
          (acFindSyscallTable n mem ring lookup s).base ∧
        (acFindSyscallTable n mem ring lookup s).anchor = readHandler mem lookup) := by
  rcases acFindSyscallTable_cases n mem ring lookup s with
    ⟨heq, hnone⟩ | ⟨base, hrh, hwh, hfirst, heq⟩
  · rw [heq]
    refine ⟨⟨fun h => absurd rfl h, fun ⟨hrh, hwh, a, ha, htable⟩ => ?_⟩, fun h => absurd rfl h⟩
    rcases hnone with h | h | h
    · exact absurd h hrh
    · exact absurd h hwh
    · exact absurd htable (h a ha)
  · rw [heq]
    exact ⟨⟨fun _ => ⟨hrh, hwh, base, hfirst.inWindow, hfirst.1⟩,
      fun _ => hfirst.inWindow.ne_zero hrh⟩, fun _ => ⟨hfirst, rfl⟩⟩

end Found

/-! ### The bounds after the search -/

section Derived

variable {ring : List LoadedModule} {lookup : String → UInt64} {es : List (Option UInt64)}
  {rh e : UInt64}

/-- An entry that belongs in the table: near the read handler, in no module, and on the right side
of each bound that could be looked up. -/
structure CoreEntry (ring : List LoadedModule) (lookup : String → UInt64) (rh e : UInt64) :
    Prop where
  handler : acPlausibleHandler ring e rh = true
  above : (acResolveTextBounds lookup).stext ≠ 0 → (acResolveTextBounds lookup).stext ≤ e
  below : (acResolveTextBounds lookup).etext ≠ 0 → e < (acResolveTextBounds lookup).etext

/-- What the symbols give: the end of the text, or none or the placeholder. -/
lemma acResolveTextBounds_end (lookup : String → UInt64) :
    ((acResolveTextBounds lookup).etext ≠ 0 ∧
        (acResolveTextBounds lookup).textEnd = (acResolveTextBounds lookup).etext ∧
        (acResolveTextBounds lookup).textEndGuessed = false) ∨
      (acResolveTextBounds lookup).textEnd = 0 ∨
        (acResolveTextBounds lookup).textEndGuessed = true := by
  unfold acResolveTextBounds
  generalize (if lookup "_stext" = 0 then lookup "_text" else lookup "_stext") = stext
  generalize (if lookup "_etext" = 0 then lookup "_sinittext" else lookup "_etext") = etext
  by_cases he : etext = 0
  · by_cases hs : stext = 0
    · exact .inr (.inl (by simp [he, hs]))
    · exact .inr (.inr (by simp [he, hs]))
  · exact .inl (by simp [he])

/-- The handlers span an interval as soon as there is one. -/
lemma exists_deriveLoop (hlo : 0x8000000 ≤ rh.toNat) (hhi : rh.toNat ≤ 2 ^ 64 - 0x8000000)
    (he : some e ∈ es) (hacc : acPlausibleHandler ring e rh = true) :
    ∃ lo hi, deriveLoop ring rh es (0, 0) = (lo, hi) ∧ lo ≠ 0 ∧ hi ≠ 0 ∧ 0x4000000 < lo.toNat ∧
      hi.toNat < 2 ^ 64 - 0x4000000 ∧ lo ≤ e ∧ e ≤ hi := by
  obtain ⟨lo, hi, hloop⟩ : ∃ lo hi, deriveLoop ring rh es (0, 0) = (lo, hi) := ⟨_, _, rfl⟩
  have hspans := deriveLoop_spec ring rh es
  rw [hloop] at hspans
  obtain ⟨hlo0, hle, hge⟩ := hspans.between e he hacc
  have hhi0 : hi ≠ 0 := by
    rintro rfl
    have h0 := (acPlausibleHandler_bounds hlo hhi hacc).2.1
    rw [UInt64.le_iff_toNat_le, UInt64.toNat_zero] at hge
    omega
  obtain ⟨-, hlow, -⟩ := acPlausibleHandler_bounds hlo hhi (hspans.lo_mem hlo0).2
  obtain ⟨-, -, hhigh⟩ := acPlausibleHandler_bounds hlo hhi (hspans.hi_mem hhi0).2
  exact ⟨lo, hi, hloop, hlo0, hhi0, hlow, hhigh, hle, hge⟩

/-- Whatever could be looked up, an entry of the table that belongs there is good afterwards. -/
lemma CoreEntry.entryBad_eq_false (h : CoreEntry ring lookup rh e)
    (hlo : 0x8000000 ≤ rh.toNat) (hhi : rh.toNat ≤ 2 ^ 64 - 0x8000000) (he : some e ∈ es) :
    TextBounds.acEntryBad ⟨(acDeriveBounds ring es rh (acResolveTextBounds lookup)).stext,
      (acDeriveBounds ring es rh (acResolveTextBounds lookup)).textEnd, rh⟩ e false = false := by
  obtain ⟨habove, hbelow⟩ := And.intro h.above h.below
  obtain ⟨lo, hi, hloop, hlo0, hhi0, hlow, hhigh, hle, hge⟩ :=
    exists_deriveLoop hlo hhi he h.handler
  obtain ⟨hend, -⟩ := derivedEnd_bounds hhigh
  have hround := toNat_round_down lo
  have hs := acResolveTextBounds_end lookup
  generalize acResolveTextBounds lookup = s at hs habove hbelow
  rw [UInt64.le_iff_toNat_le] at hle hge
  have hstext : (acDeriveBounds ring es rh s).stext =
      if s.stext = 0 then lo &&& ~~~0x1FFFFF else s.stext := by
    simp [acDeriveBounds, hloop, hlo0, hhi0]
  apply TextBounds.acEntryBad_eq_false
  · dsimp only
    rw [hstext]
    split_ifs with hzero
    · rw [← UInt64.toNat_inj.ne, hround, UInt64.toNat_zero]
      omega
    · exact hzero
  · dsimp only
    rw [hstext]
    split_ifs with hzero
    · rw [UInt64.le_iff_toNat_le, hround]
      omega
    · exact habove hzero
  · rcases hs with ⟨hetext, hres, hguess⟩ | hs
    · have hkeep : (acDeriveBounds ring es rh s).textEnd = s.etext := by
        simp [acDeriveBounds, hloop, hlo0, hhi0, hres, hetext, hguess]
      dsimp only
      rw [hkeep]
      exact hbelow hetext
    · rw [acDeriveBounds_eq hs hloop hlo0 hhi0]
      exact UInt64.lt_iff_toNat_lt.mpr (Nat.lt_of_le_of_lt hge hend)

end Derived

/-! ### The checks after the load -/

section Quiet

variable {n : ℕ}

/-- The event reports a hook or a redirect. -/
def OfTable (x : Fin n × AcEmit) : Prop :=
  x.2.type = .syscallHook ∨ x.2.type = .syscallRedirect

lemma ofTable_compareBaseline {p : Poll n} {i : Fin n} {e : UInt64} {a : Check n}
    (ha : ∀ x ∈ a.emits, OfTable x) : ∀ x ∈ (Check.compareBaseline p i e a).emits, OfTable x := by
  have hnew : OfTable (i, redirectEvent i (a.st.baseline i) e) := .inr rfl
  unfold Check.compareBaseline
  split_ifs
  · exact ha
  · exact ha
  · exact ha
  · exact List.forall_mem_append.mpr ⟨ha, List.forall_mem_singleton.mpr hnew⟩
  · exact ha
  · exact ha

lemma ofTable_classify {p : Poll n} {i : Fin n} {e : UInt64} {a : Check n}
    (ha : ∀ x ∈ a.emits, OfTable x) : ∀ x ∈ (Check.classify p i e a).emits, OfTable x := by
  have hnew : OfTable (i, hookEvent i e) := .inl rfl
  unfold Check.classify
  split_ifs
  · exact ha
  · exact ha
  · exact List.forall_mem_append.mpr ⟨ha, List.forall_mem_singleton.mpr hnew⟩
  · exact ha

/-- Every event of a call reports a hook or a redirect. -/
lemma ofTable_of_mem_emits (s : SyscallTable n) (p : Poll n) :
    ∀ x ∈ (checkLoop s p).emits, OfTable x := by
  refine foldl_invariant (P := fun _ (a : Check n) => ∀ x ∈ a.emits, OfTable x)
    (fun _ i a _ ha => ?_) (List.nodup_finRange n) (by simp)
  rw [Check.slot]
  cases p.read i with
  | none => exact ha
  | some e => exact ofTable_classify (ofTable_compareBaseline ha)

/-- A call that reads what is trusted, and no hook, reports nothing. -/
lemma quiet_of_check {s s' : SyscallTable n} {p : Poll n} {ev : List (Fin n × AcEmit)}
    {out : AcSyscallCheck} (hs : s.Captured) (h : acCheckSyscalls s p = some (s', ev, out))
    (hsame : ∀ i e, p.read i = some e → s.known i = some e)
    (hgood : ∀ i e, p.read i = some e → e ≠ 0 →
      s.bounds.acEntryBadSnapshot e p.ranges (p.inModule i).2 = false) :
    ev = [] ∧ out.ok = true := by
  have hhook : ∀ i, hookSeen s.bounds p i = false := by
    intro i
    unfold hookSeen
    split
    · rfl
    · rename_i e he
      by_cases h0 : e = 0
      · simp [h0]
      · simp [hgood i e he h0]
  have hredirect : ∀ i, redirectSeen s.bounds (s.known i) p i = false := by
    intro i
    unfold redirectSeen
    split
    · rename_i e b he hb
      simp [Option.some.inj ((hsame i e he).symm.trans hb)]
    · rfl
  have hbaseline : ∀ i e, p.read i = some e → e = s'.baseline i := by
    intro i e he
    rw [(captured_of_check hs h).baseline, known_of_check hs h, hsame i e he]
    rfl
  refine ⟨List.eq_nil_iff_forall_not_mem.mpr fun x hx => ?_,
    (ok_iff hs h fun _ => ?_).mpr fun i e he => ⟨hbaseline i e he, hgood i e he⟩⟩
  · have hhooks := (hooks_of_check hs h).2.2
    have hredirects := (redirects_of_check hs h).2
    simp only [hhook, hredirect, Bool.false_and, List.filter_false,
      List.filterMap_eq_nil_iff] at hhooks hredirects
    have hx' : x ∈ (checkLoop s p).emits := by
      unfold acCheckSyscalls at h
      split_ifs at h
      cases h
      exact hx
    rcases ofTable_of_mem_emits _ _ x hx' with ht | ht
    · simpa [hookSlot, ht] using hhooks x hx
    · simpa [redirectSlot, ht] using hredirects x hx
  · congr 1
    funext i
    by_contra hdiff
    obtain ⟨e, he, hne⟩ := (liveTable_ne_iff hs h i).mp hdiff
    exact hne (hbaseline i e he)

/-- A call on a table that nobody wrote to: each slot reads as at load or not at all, and no entry
lies in a module that is loaded by then. -/
structure Poll.Undisturbed (slots : Fin n → Option UInt64) (p : Poll n) : Prop where
  read : ∀ i, p.read i = none ∨ p.read i = slots i
  outside : ∀ i e, slots i = some e → e ≠ 0 →
    p.ranges.elim (p.inModule i).2 (TextBounds.acAddrInRanges e) = false

lemma acEntryBadSnapshot_eq_elim (k : TextBounds) (e : UInt64)
    (ranges : Option (List (UInt64 × UInt64))) (inModule : Bool) :
    k.acEntryBadSnapshot e ranges inModule =
      k.acEntryBad e (ranges.elim inModule (TextBounds.acAddrInRanges e)) := by
  cases ranges <;> rfl

/-- What is trusted stays what was there at load. -/
lemma firstRead_undisturbed {slots : Fin n → Option UInt64} {ps : List (Poll n)}
    (hps : ∀ p ∈ ps, p.Undisturbed slots) (i : Fin n) :
    firstRead (slots :: ps.map Poll.read) i = slots i := by
  cases hi : slots i with
  | some e => simp [firstRead, hi]
  | none =>
    simp only [firstRead, List.findSome?_cons, hi, List.findSome?_eq_none_iff, List.mem_map,
      forall_exists_index, and_imp, forall_apply_eq_imp_iff₂]
    intro p hp
    rcases (hps p hp).read i with h | h
    · exact h
    · rw [h, hi]

/-- The table after a load that found one. -/
lemma acInitSyscalls_of_found {mem : KMem} {ring : List LoadedModule} {lookup : String → UInt64}
    (hbase : (acInitSyscalls n mem ring lookup).base ≠ 0) :
    ∃ base, base ≠ 0 ∧ acInitSyscalls n mem ring lookup = acCaptureSyscallBaseline (.init base
      ⟨(acDeriveBounds ring (mem.entries n base) (readHandler mem lookup)
          (acResolveTextBounds lookup)).stext,
        (acDeriveBounds ring (mem.entries n base) (readHandler mem lookup)
          (acResolveTextBounds lookup)).textEnd, readHandler mem lookup⟩) (mem.slots base) := by
  unfold acInitSyscalls at hbase ⊢
  rcases acFindSyscallTable_cases n mem ring lookup (acResolveTextBounds lookup) with
    ⟨heq, -⟩ | ⟨base, hrh, -, hfirst, heq⟩
  · rw [heq] at hbase
    exact absurd rfl hbase
  · have hne := hfirst.inWindow.ne_zero hrh
    refine ⟨base, hne, ?_⟩
    rw [heq]
    exact if_pos hne

/-- A kernel whose table stands where the read handler begins: 450 handlers, 16 bytes apart. -/
def plainKernel : KMem where
  word a :=
    if 0x81000000 ≤ a ∧ a < 0x81000000 + 450 * 8 then
      some (0x81000000 + (a - 0x81000000) * 2)
    else none
  insn _ := none

def plainLookup (name : String) : UInt64 :=
  if name = "__x64_sys_read" then 0x81000000
  else if name = "__x64_sys_write" then 0x81000010
  else 0

def plainPoll : Poll 450 := ⟨plainKernel.slots 0x81000000, some [], fun _ => (false, false)⟩

lemma base_plainKernel : (acInitSyscalls 450 plainKernel [] plainLookup).base = 0x81000000 := by
  decide +kernel

lemma undisturbed_plainPoll : plainPoll.Undisturbed (plainKernel.slots 0x81000000) :=
  ⟨fun _ => .inr rfl, fun _ _ _ _ => rfl⟩

end Quiet

end Anticheat.Syscalls
