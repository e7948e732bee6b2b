import Anticheat.Modules.Crosscheck
import Anticheat.Syscalls.Basic

/-!
# The module ranges of the syscall check

Whether an address lies in a loaded module is found out by a walk over the ring of modules, or from
a snapshot of their core ranges that is taken once per check. Both give the same answer, as long as
the regions are ones that the walk's subtraction and the snapshot's end address both describe.
-/

namespace Anticheat.Syscalls

open Modules (Module acModuleSane acMaxMods)

/-- `enum mod_mem_type` of the kernel -/
inductive ModMemType where
  | text
  | data
  | rodata
  | roAfterInit
  | initText
  | initData
  | initRodata
  deriving DecidableEq, Repr

/-- `MOD_MEM_NUM_TYPES` -/
def modMemNumTypes : ℕ := 7

/-- The types that `for_class_mod_mem_type(type, core)` visits. -/
def coreTypes : List ModMemType := [.text, .data, .rodata, .roAfterInit]

/-- `struct module_memory` -/
structure ModMem where
  base : UInt64
  size : UInt64
  deriving DecidableEq, Repr

/-- A module with all its regions. -/
structure LoadedModule extends Module where
  mem : ModMemType → ModMem
  textBase_eq : textBase = (mem .text).base.toNat
  textSize_eq : textSize = (mem .text).size.toNat

/-- `within_module_mem_type` -/
def withinModuleMemType (addr : UInt64) (r : ModMem) : Bool := addr - r.base < r.size

/-- The core regions of a module. -/
def LoadedModule.core (m : LoadedModule) : List ModMem := coreTypes.map m.mem

/-- `within_module_core` -/
def withinModuleCore (addr : UInt64) (m : LoadedModule) : Bool :=
  m.core.any (withinModuleMemType addr)

/-- `ac_addr_in_module`; the ring starts with the module itself. -/
def acAddrInModule (ring : List LoadedModule) (addr : UInt64) : Bool :=
  ring.any fun m => acModuleSane m.toModule && withinModuleCore addr m

/-- The capacity of a snapshot. -/
def rangesCap : ℕ := acMaxMods * modMemNumTypes

/-- The inner loop of `ac_snapshot_mod_ranges`; `none` when there is one range too many. -/
def snapshotCore (ranges : List (UInt64 × UInt64)) : List ModMem → Option (List (UInt64 × UInt64))
  | [] => some ranges
  | r :: rs =>
    if r.base = 0 || r.size = 0 || 0x40000000 < r.size then snapshotCore ranges rs
    else if rangesCap ≤ ranges.length then none
    else snapshotCore (ranges ++ [(r.base, r.base + r.size)]) rs

/-- The outer loop. -/
def snapshotRing (ranges : List (UInt64 × UInt64)) :
    List LoadedModule → Option (List (UInt64 × UInt64))
  | [] => some ranges
  | m :: ring =>
    if !acModuleSane m.toModule then snapshotRing ranges ring
    else
      match snapshotCore ranges m.core with
      | none => none
      | some ranges => snapshotRing ranges ring

/-- `ac_snapshot_mod_ranges`; `kvmalloc` is whether the array can be had. -/
def acSnapshotModRanges (kvmalloc : Bool) (ring : List LoadedModule) :
    Option (List (UInt64 × UInt64)) :=
  if !kvmalloc then none else snapshotRing [] ring

/-! ### Regions -/

/-- A region is empty, or it has an address, is not larger than 1 GiB and does not wrap. -/
def ModMem.Regular (r : ModMem) : Prop :=
  r.size = 0 ∨ r.base ≠ 0 ∧ r.size ≤ 0x40000000 ∧ r.base.toNat + r.size.toNat < 2 ^ 64

/-- The range that the snapshot stores for a region. -/
def ModMem.range? (r : ModMem) : Option (UInt64 × UInt64) :=
  if r.base = 0 || r.size = 0 || 0x40000000 < r.size then none else some (r.base, r.base + r.size)

/-- A regular region and its range hold the same addresses. -/
lemma ModMem.Regular.any_range? {r : ModMem} (h : r.Regular) (addr : UInt64) :
    (r.range?.any fun p => p.1 ≤ addr && addr < p.2) = withinModuleMemType addr r := by
  by_cases h0 : r.size = 0
  · simp [range?, withinModuleMemType, h0]
  · obtain ⟨hbase, hsize, hwrap⟩ := h.resolve_left h0
    have hrange : r.range? = some (r.base, r.base + r.size) := by
      rw [range?, if_neg]
      simp [hbase, h0, hsize]
    rw [hrange, Option.any_some, withinModuleMemType, Bool.eq_iff_iff]
    simp only [Bool.and_eq_true, decide_eq_true_eq, UInt64.le_iff_toNat_le,
      UInt64.lt_iff_toNat_lt, UInt64.toNat_add, UInt64.toNat_sub]
    have haddr := addr.toNat_lt
    omega

/-! ### The snapshot -/

/-- A snapshot that does not overflow holds the ranges of all regions. -/
lemma snapshotCore_eq_some {ranges out : List (UInt64 × UInt64)} {rs : List ModMem}
    (h : snapshotCore ranges rs = some out) : out = ranges ++ rs.filterMap ModMem.range? := by
  induction rs generalizing ranges with
  | nil =>
    cases h
    simp
  | cons r rs ih =>
    rw [snapshotCore] at h
    rw [List.filterMap_cons, ModMem.range?]
    split_ifs at h ⊢ with hskip hfull
    · exact ih h
    · rw [ih h, List.append_assoc]
      rfl

lemma snapshotRing_eq_some {ranges out : List (UInt64 × UInt64)} {ring : List LoadedModule}
    (h : snapshotRing ranges ring = some out) :
    out = ranges ++ (ring.filter fun m => acModuleSane m.toModule).flatMap
      fun m => m.core.filterMap ModMem.range? := by
  induction ring generalizing ranges with
  | nil =>
    cases h
    simp
  | cons m ring ih =>
    rw [snapshotRing] at h
    by_cases hsane : acModuleSane m.toModule = true
    · rw [List.filter_cons, if_pos hsane, List.flatMap_cons]
      simp only [hsane, Bool.not_true, Bool.false_eq_true, if_false] at h
      cases hcore : snapshotCore ranges m.core with
      | none =>
        rw [hcore] at h
        cases h
      | some ranges' =>
        rw [hcore] at h
        rw [ih h, snapshotCore_eq_some hcore, List.append_assoc]
    · rw [List.filter_cons, if_neg hsane]
      simp only [hsane, Bool.not_false, if_true] at h
      exact ih h

lemma any_filterMap_range? {rs : List ModMem} (h : ∀ r ∈ rs, r.Regular) (addr : UInt64) :
    (rs.filterMap ModMem.range?).any (fun p => p.1 ≤ addr && addr < p.2) =
      rs.any (withinModuleMemType addr) := by
  induction rs with
  | nil => rfl
  | cons r rs ih =>
    obtain ⟨hr, hrs⟩ := List.forall_mem_cons.mp h
    rw [List.filterMap_cons, List.any_cons, ← ih hrs, ← hr.any_range? addr]
    cases r.range? <;> rfl

/-- An address lies in the ranges of a snapshot exactly if the walk finds it in a module. -/
lemma acAddrInRanges_snapshot {ring : List LoadedModule} {ranges : List (UInt64 × UInt64)}
    (hring : ∀ m ∈ ring, acModuleSane m.toModule = true → ∀ r ∈ m.core, r.Regular)
    (h : snapshotRing [] ring = some ranges) (addr : UInt64) :
    TextBounds.acAddrInRanges addr ranges = acAddrInModule ring addr := by
  rw [snapshotRing_eq_some h, List.nil_append, TextBounds.acAddrInRanges, List.any_flatMap,
    List.any_filter, acAddrInModule]
  rw [Bool.eq_iff_iff, List.any_eq_true, List.any_eq_true]
  refine exists_congr fun m => and_congr_right fun hm => ?_
  rw [Bool.and_eq_true, Bool.and_eq_true]
  refine and_congr_right fun hsane => ?_
  rw [withinModuleCore, ← any_filterMap_range? (hring m hm hsane)]

/-- Classifying an address against the result of `ac_snapshot_mod_ranges` gives the answer of the
live walk, whether there is a snapshot or not. -/
theorem acEntryBadSnapshot_eq (ring : List LoadedModule)
    (hring : ∀ m ∈ ring, acModuleSane m.toModule = true → ∀ r ∈ m.core, r.Regular)
    (kvmalloc : Bool) (k : TextBounds) (addr : UInt64) :
    k.acEntryBadSnapshot addr (acSnapshotModRanges kvmalloc ring) (acAddrInModule ring addr) =
      k.acEntryBad addr (acAddrInModule ring addr) := by
  cases h : acSnapshotModRanges kvmalloc ring with
  | none => rfl
  | some ranges =>
    have hsnap : snapshotRing [] ring = some ranges := by
      rw [acSnapshotModRanges] at h
      split_ifs at h
      exact h
    rw [TextBounds.acEntryBadSnapshot, TextBounds.acEntryBad, acAddrInRanges_snapshot hring hsnap]

/-- A live module with one text region. -/
def textModule (base : UInt64) : LoadedModule where
  name := [107]
  name_lt := by decide
  noNul := by decide
  inModuleArea := true
  state := .live
  textBase := base.toNat
  textSize := 4096
  mem type := if type = .text then ⟨base, 4096⟩ else ⟨0, 0⟩
  textBase_eq := rfl
  textSize_eq := rfl

theorem acEntryBadSnapshot_eq_text :
    TextBounds.acEntryBadSnapshot ⟨0, 0, 0x10000000⟩ 0x10000010
        (acSnapshotModRanges true [textModule 0x10000000]) true = true ∧
      acAddrInModule [textModule 0x10000000] 0x10000010 = true := by
  have hin : acAddrInModule [textModule 0x10000000] 0x10000010 = true := by decide
  refine ⟨?_, hin⟩
  have h := acEntryBadSnapshot_eq [textModule 0x10000000]
    (by simp [LoadedModule.core, coreTypes, textModule, ModMem.Regular]) true
    ⟨0, 0, 0x10000000⟩ 0x10000010
  rw [hin] at h
  rw [h]
  decide

end Anticheat.Syscalls
