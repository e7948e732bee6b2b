import Anticheat.Baseline.Check
import Anticheat.Lib.Grouped
import Anticheat.Render.Load

/-!
# The check of one render library

`check_render_lib` compares a symbol's bytes at the address that each candidate mapping of the
library predicts with those of the mapped file. The candidates are grouped by file, so that each
file is parsed once, and the four-valued comparisons are folded into one verdict.
-/

namespace Anticheat.Render

open Hash Baseline Grouped

/-! ### The reference -/

/-- `AC_HOOK_CHECK_DEFAULT_BYTES` -/
def acHookCheckDefaultBytes : UInt64 := 32

/-- `AC_HOOK_CHECK_MIN_BYTES` -/
def acHookCheckMinBytes : UInt64 := 8

/-- `AC_HOOK_CHECK_MAX_BYTES` -/
def acHookCheckMaxBytes : UInt64 := 512

/-- `struct ac_elf_loc` -/
structure AcElfLoc where
  fileOff : UInt64
  segOff : UInt64
  segEnd : UInt64
  deriving DecidableEq, Repr

/-- The location of a symbol and its bytes in the file: `loc`, `expected` and `checklen`. -/
structure Reference where
  loc : AcElfLoc
  expected : Bytes
  deriving DecidableEq, Repr

/-- What `stat` says of a file: whether it is a regular one, and its identity. -/
structure MapStat where
  isReg : Bool
  id : AcMapId
  deriving DecidableEq, Repr

/-- A file opened through `/proc/<pid>/map_files/`; `fstat` may fail. -/
structure MapFile where
  st : Option MapStat
  content : Bytes
  deriving DecidableEq, Repr

/-- A `pread` that must give `n` bytes; an offset that is negative as an `off_t` fails. -/
def preadAll (content : Bytes) (off : UInt64) (n : ℕ) : Option Bytes :=
  if off.toNat < 2 ^ 63 ∧ ((content.drop off.toNat).take n).length = n then
    some ((content.drop off.toNat).take n)
  else none

/-- `checklen` for a symbol of the given `st_size`. -/
def checklen (size : UInt64) (loc : AcElfLoc) : UInt64 :=
  let len :=
    if size = 0 then acHookCheckDefaultBytes
    else if size < acHookCheckMinBytes then acHookCheckMinBytes
    else if acHookCheckMaxBytes < size then acHookCheckMaxBytes
    else size
  if loc.segEnd - loc.fileOff < len then loc.segEnd - loc.fileOff else len

/-- `load_render_reference`, where `find` is `elf_find_symbol_offset` for the symbol: its location
and size in a file of the given content. -/
def loadRenderReference (find : Bytes → Option (AcElfLoc × UInt64)) (file : Option MapFile)
    (id : AcMapId) : Option Reference :=
  match file with
  | none => none
  | some f =>
    if f.st ≠ some ⟨true, id⟩ then none
    else
      match find f.content with
      | none => none
      | some (loc, size) =>
        (preadAll f.content loc.fileOff (checklen size loc).toNat).map (Reference.mk loc)

/-! ### One mapping -/

/-- `struct ac_render_map` -/
structure AcRenderMap where
  start : UInt64
  stop : UInt64
  offset : UInt64
  inode : UInt64
  path : Bytes
  deriving DecidableEq, Repr

/-- What `compare_render_map` returns: `1`, `0`, `-1` and `-2`. -/
inductive RenderCmp
  | hooked
  | clean
  | inconclusive
  | nothing
  deriving DecidableEq, Repr

namespace AcRenderMap

variable (m : AcRenderMap)

/-- `delta` -/
def delta : UInt64 := m.start - m.offset

/-- `addr`: where the mapping says the symbol is. -/
def addr (loc : AcElfLoc) : UInt64 := m.delta + loc.fileOff

end AcRenderMap

/-- The last byte of the compared range. -/
def lastAddr (m : AcRenderMap) (ref : Reference) : UInt64 :=
  m.addr ref.loc + UInt64.ofNat ref.expected.length - 1

/-- `compare_render_map`; `inLoad` is `render_addr_in_load` for the process and the file. -/
def compareRenderMap (mem : UInt64 → Option UInt8) (inLoad : UInt64 → UInt64 → Tri)
    (m : AcRenderMap) (ref : Reference) : RenderCmp :=
  if m.stop ≤ m.start ∨ ref.loc.segEnd ≤ m.offset ∨
      0xffffffffffffffff - m.offset < m.stop - m.start ∨
      m.offset + (m.stop - m.start) ≤ ref.loc.segOff then
    .nothing
  else
    match readMem mem (m.addr ref.loc) ref.expected.length with
    | none => .inconclusive
    | some actual =>
      if ref.expected = actual then .clean
      else
        let first := inLoad m.delta (m.addr ref.loc)
        match if first = .yes then inLoad m.delta (lastAddr m ref) else first with
        | .unknown => .inconclusive
        | .yes => .hooked
        | .no => .nothing

/-! ### All mappings -/

/-- `AC_RENDER_MAX_MAPS` -/
def acRenderMaxMaps : ℕ := 16

/-- `struct ac_lib_result` -/
structure AcLibResult where
  incomplete : Bool
  maps : List AcRenderMap
  le : maps.length ≤ acRenderMaxMaps

/-- A process as the checks of the daemon see it. -/
structure Target where
  /-- `kill(pid, 0)` does not say that there is no such process. -/
  alive : Bool
  mem : ProcMem
  /-- `stat` and `open` of the entry of `/proc/<pid>/map_files/` for a range. -/
  stat : UInt64 → UInt64 → Option MapStat
  openFile : UInt64 → UInt64 → Option MapFile
  /-- `render_addr_in_load` -/
  inLoad : AcMapId → UInt64 → UInt64 → Tri

/-- `map_file_identity` -/
def mapFileIdentity (st : Option MapStat) : MapFileIdentity AcMapId :=
  match st with
  | none => .unreadable
  | some st => if !st.isReg then .notRegular else .regular st.id

/-- `ids[i]`, if `id_ok[i]`. -/
def Target.identity (t : Target) (m : AcRenderMap) : Option AcMapId :=
  match mapFileIdentity (t.stat m.start m.stop) with
  | .regular id => some id
  | .notRegular | .unreadable => none

/-- What `check_render_lib` and `render_hook_statuses_for` say of a library: `1`, `0`, `-1` and
`-2`. -/
inductive HookStatus
  | hooked
  | clean
  | inconclusive
  | notLoaded
  deriving DecidableEq, Repr

/-- The variables of the loops in `check_render_lib`. -/
structure LibFlags where
  hooked : Bool
  inconclusive : Bool
  clean : Bool
  libpath : Bytes
  deriving DecidableEq, Repr

namespace LibFlags

/-- What the inner loop makes of the comparison of a mapping with this path. -/
def note (fl : LibFlags) (path : Bytes) (r : RenderCmp) : LibFlags :=
  if r = .hooked ∧ fl.hooked = false then { fl with hooked := true, libpath := path }
  else if r = .clean then { fl with clean := true }
  else if r = .inconclusive then { fl with inconclusive := true }
  else fl

/-- What `check_render_lib` returns after the loops. -/
def status (fl : LibFlags) : HookStatus :=
  if fl.hooked then .hooked
  else if fl.inconclusive || !fl.clean then .inconclusive
  else .clean

end LibFlags

section Code

variable (find : Bytes → Option (AcElfLoc × UInt64)) (t : Target) (mem : UInt64 → Option UInt8)

/-- `load_render_reference` for a mapping. -/
def Target.reference (m : AcRenderMap) (id : AcMapId) : Option Reference :=
  loadRenderReference find (t.openFile m.start m.stop) id

/-- `r` for a mapping of the file `id` with the reference of its group. -/
def Target.compare (id : AcMapId) (ref : Option Reference) (m : AcRenderMap) : RenderCmp :=
  match ref with
  | some ref => compareRenderMap mem (t.inLoad id) m ref
  | none => .inconclusive

/-- The loop over the later mappings of the same file. -/
def Target.checkGroup (id : AcMapId) (ref : Option Reference) (ms : List AcRenderMap)
    (fl : LibFlags) : LibFlags :=
  ms.foldl (fun fl m =>
    if t.identity m = some id then fl.note m.path (t.compare mem id ref m) else fl) fl

/-- The loop over the mappings, from the place where it has gone past `before`. -/
def Target.checkGroups (before : List AcRenderMap) (fl : LibFlags) : List AcRenderMap → LibFlags
  | [] => fl
  | m :: ms =>
    match t.identity m with
    | none => checkGroups (before ++ [m]) fl ms
    | some id =>
      if before.any fun b => t.identity b = some id then checkGroups (before ++ [m]) fl ms
      else
        checkGroups (before ++ [m])
          (t.checkGroup mem id (t.reference find m id) (m :: ms) fl) ms

/-- `check_render_lib`: what it returns and `libpath_out`. -/
def checkRenderLib (res : AcLibResult) : HookStatus × Bytes :=
  let libpath := (res.maps.head?.map AcRenderMap.path).getD []
  if !t.alive then (.inconclusive, libpath)
  else
    match t.mem with
    | none => (.inconclusive, libpath)
    | some mem =>
      let inconclusive := res.incomplete || res.maps.any fun m => (t.identity m).isNone
      let fl := t.checkGroups find mem [] ⟨false, inconclusive, false, libpath⟩ res.maps
      (fl.status, fl.libpath)

end Code

/-! ### What a comparison says -/

/-- The file range of the mapping, which does not pass `2^64`, overlaps the symbol's segment. -/
structure AcRenderMap.Overlaps (m : AcRenderMap) (loc : AcElfLoc) : Prop where
  lt : m.start < m.stop
  range : m.offset.toNat + (m.stop - m.start).toNat < 2 ^ 64
  low : m.offset.toNat < loc.segEnd.toNat
  high : loc.segOff.toNat < m.offset.toNat + (m.stop - m.start).toNat

section Compare

variable (mem : UInt64 → Option UInt8) (inLoad : UInt64 → UInt64 → Tri) (m : AcRenderMap)
  (ref : Reference)

/-- The bytes at the predicted address can be read and are those of the file. -/
def ComparesEqual : Prop :=
  m.Overlaps ref.loc ∧ readMem mem (m.addr ref.loc) ref.expected.length = some ref.expected

/-- The bytes at the predicted address can be read and are not those of the file. -/
def Differs : Prop :=
  ∃ actual, readMem mem (m.addr ref.loc) ref.expected.length = some actual ∧
    actual ≠ ref.expected

/-- The bytes differ, and both ends of the range are in the load. -/
def ShowsHook : Prop :=
  m.Overlaps ref.loc ∧ Differs mem m ref ∧
    inLoad m.delta (m.addr ref.loc) = .yes ∧ inLoad m.delta (lastAddr m ref) = .yes

/-- The mapping is of another segment, or the bytes differ but an end is not in the load. -/
def PredictsNothing : Prop :=
  ¬ m.Overlaps ref.loc ∨ Differs mem m ref ∧
    (inLoad m.delta (m.addr ref.loc) = .no ∨
      inLoad m.delta (m.addr ref.loc) = .yes ∧ inLoad m.delta (lastAddr m ref) = .no)

variable {mem inLoad m ref}

theorem overlaps_iff {loc : AcElfLoc} : m.Overlaps loc ↔
    ¬ (m.stop ≤ m.start ∨ loc.segEnd ≤ m.offset ∨
      0xffffffffffffffff - m.offset < m.stop - m.start ∨
      m.offset + (m.stop - m.start) ≤ loc.segOff) := by
  have hoff := m.offset.toNat_lt
  have hmax : (0xffffffffffffffff - m.offset : UInt64).toNat = 2 ^ 64 - 1 - m.offset.toNat := by
    rw [UInt64.toNat_sub_of_le _ _ (UInt64.le_iff_toNat_le.2 (by simpa using by omega))]
    rfl
  simp only [not_or, UInt64.le_iff_toNat_le, UInt64.lt_iff_toNat_lt, hmax, not_le, not_lt]
  constructor
  · rintro ⟨lt, range, low, high⟩
    refine ⟨UInt64.lt_iff_toNat_lt.1 lt, low, by omega, ?_⟩
    rwa [UInt64.toNat_add, Nat.mod_eq_of_lt range]
  · rintro ⟨lt, low, range, high⟩
    have hrange : m.offset.toNat + (m.stop - m.start).toNat < 2 ^ 64 := by omega
    rw [UInt64.toNat_add, Nat.mod_eq_of_lt hrange] at high
    exact ⟨UInt64.lt_iff_toNat_lt.2 lt, hrange, low, high⟩

theorem compareRenderMap_of_overlaps (h : m.Overlaps ref.loc) :
    compareRenderMap mem inLoad m ref =
      match readMem mem (m.addr ref.loc) ref.expected.length with
      | none => .inconclusive
      | some actual =>
        if ref.expected = actual then .clean
        else
          match if inLoad m.delta (m.addr ref.loc) = .yes then inLoad m.delta (lastAddr m ref)
              else inLoad m.delta (m.addr ref.loc) with
          | .unknown => .inconclusive
          | .yes => .hooked
          | .no => .nothing := by
  rw [compareRenderMap, if_neg (overlaps_iff.1 h)]

theorem compareRenderMap_of_not_overlaps (h : ¬ m.Overlaps ref.loc) :
    compareRenderMap mem inLoad m ref = .nothing := by
  rw [compareRenderMap, if_pos (not_not.1 (mt overlaps_iff.2 h))]

lemma Tri.ite_eq_yes_iff {x y : Tri} :
    (if x = .yes then y else x) = .yes ↔ x = .yes ∧ y = .yes := by
  cases x <;> simp

lemma Tri.ite_eq_no_iff {x y : Tri} :
    (if x = .yes then y else x) = .no ↔ x = .no ∨ x = .yes ∧ y = .no := by
  cases x <;> simp

/-- Bytes that differ count as far as the ends of the range are in the load; the last one is asked
for after the first. -/
theorem compareRenderMap_of_differs (h : m.Overlaps ref.loc) (hd : Differs mem m ref) :
    compareRenderMap mem inLoad m ref =
      match if inLoad m.delta (m.addr ref.loc) = .yes then inLoad m.delta (lastAddr m ref)
          else inLoad m.delta (m.addr ref.loc) with
      | .unknown => .inconclusive
      | .yes => .hooked
      | .no => .nothing := by
  obtain ⟨actual, hread, hne⟩ := hd
  simp only [compareRenderMap_of_overlaps h, hread, if_neg hne.symm]

theorem compareRenderMap_of_not_differs (h : m.Overlaps ref.loc) (hd : ¬ Differs mem m ref) :
    compareRenderMap mem inLoad m ref =
      if readMem mem (m.addr ref.loc) ref.expected.length = some ref.expected then .clean
      else .inconclusive := by
  rw [compareRenderMap_of_overlaps h]
  cases hread : readMem mem (m.addr ref.loc) ref.expected.length with
  | none => rfl
  | some actual =>
    have heq : actual = ref.expected := by
      by_contra hne
      exact hd ⟨actual, hread, hne⟩
    simp [heq]

lemma not_differs_of_readMem
    (h : readMem mem (m.addr ref.loc) ref.expected.length = some ref.expected) :
    ¬ Differs mem m ref := by
  rintro ⟨actual, hread, hne⟩
  exact hne (Option.some.inj (hread.symm.trans h))

theorem compareRenderMap_eq_clean_iff :
    compareRenderMap mem inLoad m ref = .clean ↔ ComparesEqual mem m ref := by
  by_cases h : m.Overlaps ref.loc
  · by_cases hd : Differs mem m ref
    · have hne : ¬ ComparesEqual mem m ref := fun heq => not_differs_of_readMem heq.2 hd
      rw [compareRenderMap_of_differs h hd, iff_false_right hne]
      split <;> nofun
    · simp [compareRenderMap_of_not_differs h hd, ComparesEqual, h]
  · simp [compareRenderMap_of_not_overlaps h, ComparesEqual, h]

theorem compareRenderMap_eq_hooked_iff :
    compareRenderMap mem inLoad m ref = .hooked ↔ ShowsHook mem inLoad m ref := by
  by_cases h : m.Overlaps ref.loc
  · by_cases hd : Differs mem m ref
    · rw [compareRenderMap_of_differs h hd, ShowsHook, ← Tri.ite_eq_yes_iff]
      simp only [h, hd, true_and]
      split <;> simp_all
    · rw [compareRenderMap_of_not_differs h hd, ShowsHook]
      split_ifs <;> simp [hd]
  · simp [compareRenderMap_of_not_overlaps h, ShowsHook, h]

theorem compareRenderMap_eq_nothing_iff :
    compareRenderMap mem inLoad m ref = .nothing ↔ PredictsNothing mem inLoad m ref := by
  by_cases h : m.Overlaps ref.loc
  · by_cases hd : Differs mem m ref
    · rw [compareRenderMap_of_differs h hd, PredictsNothing, ← Tri.ite_eq_no_iff]
      simp only [h, hd, true_and, not_true, false_or]
      split <;> simp_all
    · rw [compareRenderMap_of_not_differs h hd, PredictsNothing]
      split_ifs <;> simp [h, hd]
  · simp [compareRenderMap_of_not_overlaps h, PredictsNothing, h]

end Compare

/-! ### The loops -/

section Loops

variable (find : Bytes → Option (AcElfLoc × UInt64)) (t : Target) (mem : UInt64 → Option UInt8)
  (ref : AcMapId → Option Reference)

/-- The comparison of a mapping by itself: inconclusive without an identity or a reference. -/
def Target.verdict (m : AcRenderMap) : RenderCmp :=
  match t.identity m with
  | none => .inconclusive
  | some id => t.compare mem id (ref id) m

/-- The reference, or that there is none, depends on the file alone. -/
def Target.RefersTo (ms : List AcRenderMap) : Prop :=
  ∀ m ∈ ms, ∀ id, t.identity m = some id → t.reference find m id = ref id

variable {find t mem ref}

/-- The loop over a group is a loop over the members of the group. -/
theorem Target.checkGroup_eq_foldl {id : AcMapId} {m : AcRenderMap} (hid : t.identity m = some id)
    (ms : List AcRenderMap) (fl : LibFlags) :
    t.checkGroup mem id (ref id) ms fl =
      (ms.filter fun m' => t.identity m' = t.identity m).foldl
        (fun fl m => fl.note m.path (t.verdict mem ref m)) fl := by
  rw [checkGroup, List.foldl_filter]
  congr 1
  funext fl m'
  rw [hid, Target.verdict]
  by_cases h : t.identity m' = some id
  · simp [h]
  · simp [h]

/-- The nested loops visit the mappings group by group. -/
theorem Target.checkGroups_eq_foldl (ms before : List AcRenderMap) (fl : LibFlags)
    (href : t.RefersTo find ref ms) :
    t.checkGroups find mem before fl ms =
      (visits t.identity before ms).foldl
        (fun fl m => fl.note m.path (t.verdict mem ref m)) fl := by
  induction ms generalizing before fl with
  | nil => rfl
  | cons m ms ih =>
    have ih := fun before fl => ih before fl fun x hx => href x (List.mem_cons_of_mem m hx)
    rw [checkGroups, visits, List.foldl_append]
    cases hid : t.identity m with
    | none => simp [ih, isNew, hid]
    | some id =>
      by_cases hseen : (before.any fun b => t.identity b = some id) = true
      · simp [ih, isNew, hid, hseen]
      · dsimp only
        rw [if_neg hseen, if_pos (by simp [isNew, hid, hseen]), ih, ← hid,
          href m (by simp) id hid, checkGroup_eq_foldl hid]

theorem LibFlags.status_eq_clean_iff {fl : LibFlags} :
    fl.status = .clean ↔ fl.hooked = false ∧ fl.inconclusive = false ∧ fl.clean = true := by
  unfold status
  cases fl.hooked <;> cases fl.inconclusive <;> cases fl.clean <;> simp

/-- A flag that one outcome of a comparison sets is set by the loop if it was, or if some mapping
has that outcome. -/
theorem LibFlags.foldl_note {flag : LibFlags → Bool} {c : RenderCmp}
    (hflag : ∀ fl path r, flag (fl.note path r) = (flag fl || decide (r = c)))
    (verdict : AcRenderMap → RenderCmp) (ms : List AcRenderMap) (fl : LibFlags) :
    flag (ms.foldl (fun fl m => fl.note m.path (verdict m)) fl) =
      (flag fl || ms.any fun m => verdict m = c) := by
  induction ms generalizing fl with
  | nil => simp
  | cons m ms ih => rw [List.foldl_cons, ih, hflag, List.any_cons, Bool.or_assoc]

theorem LibFlags.hooked_note (fl : LibFlags) (path : Bytes) (r : RenderCmp) :
    (fl.note path r).hooked = (fl.hooked || decide (r = .hooked)) := by
  cases r <;> cases h : fl.hooked <;> simp [note, h]

theorem LibFlags.clean_note (fl : LibFlags) (path : Bytes) (r : RenderCmp) :
    (fl.note path r).clean = (fl.clean || decide (r = .clean)) := by
  cases r <;> cases h : fl.hooked <;> simp [note, h]

theorem LibFlags.inconclusive_note (fl : LibFlags) (path : Bytes) (r : RenderCmp) :
    (fl.note path r).inconclusive = (fl.inconclusive || decide (r = .inconclusive)) := by
  cases r <;> cases h : fl.hooked <;> simp [note, h]

theorem Target.verdict_of_identity_eq_none {m : AcRenderMap} (h : t.identity m = none) :
    t.verdict mem ref m = .inconclusive := by
  rw [verdict, h]

theorem Target.verdict_eq_iff {c : RenderCmp} (hc : c ≠ .inconclusive) {m : AcRenderMap} :
    t.verdict mem ref m = c ↔ ∃ id r, t.identity m = some id ∧ ref id = some r ∧
      compareRenderMap mem (t.inLoad id) m r = c := by
  unfold verdict compare
  cases t.identity m with
  | none => simp [hc.symm]
  | some id => cases hr : ref id <;> simp [hr, hc.symm]

/-- The visits leave out only mappings without an identity, which are inconclusive. -/
theorem Target.any_visits {c : RenderCmp} (hc : c ≠ .inconclusive) (ms : List AcRenderMap) :
    ((visits t.identity [] ms).any fun m => t.verdict mem ref m = c) =
      ms.any fun m => t.verdict mem ref m = c := by
  rw [Bool.eq_iff_iff]
  simp only [List.any_eq_true, mem_visits, decide_eq_true_eq]
  constructor
  · rintro ⟨m, ⟨hm, -⟩, hv⟩
    exact ⟨m, hm, hv⟩
  · rintro ⟨m, hm, hv⟩
    refine ⟨m, ⟨hm, Option.isSome_iff_ne_none.2 fun hid => hc ?_⟩, hv⟩
    rw [← hv, verdict_of_identity_eq_none hid]

theorem Target.any_inconclusive (ms : List AcRenderMap) :
    ((ms.any fun m => (t.identity m).isNone) ||
      (visits t.identity [] ms).any fun m => t.verdict mem ref m = .inconclusive) =
      ms.any fun m => t.verdict mem ref m = .inconclusive := by
  rw [Bool.eq_iff_iff]
  simp only [Bool.or_eq_true, List.any_eq_true, mem_visits, decide_eq_true_eq,
    Option.isNone_iff_eq_none]
  constructor
  · rintro (⟨m, hm, hid⟩ | ⟨m, ⟨hm, -⟩, hv⟩)
    · exact ⟨m, hm, verdict_of_identity_eq_none hid⟩
    · exact ⟨m, hm, hv⟩
  · rintro ⟨m, hm, hv⟩
    cases hid : t.identity m with
    | none => exact .inl ⟨m, hm, hid⟩
    | some id => exact .inr ⟨m, ⟨hm, by simp [hid]⟩, hv⟩

/-- Each flag is set exactly if some mapping, by itself, has the outcome that sets it. -/
theorem checkRenderLib_fst (halive : t.alive = true) (hmem : t.mem = some mem) {res : AcLibResult}
    (href : t.RefersTo find ref res.maps) :
    (checkRenderLib find t res).1 = LibFlags.status
      ⟨res.maps.any fun m => t.verdict mem ref m = .hooked,
        res.incomplete || res.maps.any fun m => t.verdict mem ref m = .inconclusive,
        res.maps.any fun m => t.verdict mem ref m = .clean, []⟩ := by
  simp only [checkRenderLib, halive, hmem, Target.checkGroups_eq_foldl _ _ _ href, Bool.not_true,
    Bool.false_eq_true, if_false, LibFlags.status,
    LibFlags.foldl_note LibFlags.hooked_note, LibFlags.foldl_note LibFlags.clean_note,
    LibFlags.foldl_note LibFlags.inconclusive_note, Bool.false_or, Bool.or_assoc,
    Target.any_inconclusive]
  rw [Target.any_visits (by decide), Target.any_visits (by decide)]

section Verdict

variable (halive : t.alive = true) (hmem : t.mem = some mem) {res res' : AcLibResult}
  (href : t.RefersTo find ref res.maps)

include halive hmem href

theorem checkRenderLib_eq_hooked_iff :
    (checkRenderLib find t res).1 = .hooked ↔ ∃ m ∈ res.maps, t.verdict mem ref m = .hooked := by
  rw [checkRenderLib_fst halive hmem href, LibFlags.status]
  split_ifs with h <;> simpa using h

theorem checkRenderLib_eq_clean_iff :
    (checkRenderLib find t res).1 = .clean ↔ res.incomplete = false ∧
      (∀ m ∈ res.maps, t.verdict mem ref m = .clean ∨ t.verdict mem ref m = .nothing) ∧
      ∃ m ∈ res.maps, t.verdict mem ref m = .clean := by
  rw [checkRenderLib_fst halive hmem href, LibFlags.status_eq_clean_iff]
  simp only [Bool.or_eq_false_iff, List.any_eq_false, List.any_eq_true, decide_eq_true_eq]
  constructor
  · rintro ⟨hhooked, ⟨hcomplete, hinc⟩, hclean⟩
    refine ⟨hcomplete, fun m hm => ?_, hclean⟩
    cases hv : t.verdict mem ref m with
    | hooked => exact absurd hv (hhooked m hm)
    | clean => exact .inl rfl
    | inconclusive => exact absurd hv (hinc m hm)
    | nothing => exact .inr rfl
  · rintro ⟨hcomplete, hall, hclean⟩
    refine ⟨fun m hm hv => ?_, ⟨hcomplete, fun m hm hv => ?_⟩, hclean⟩ <;>
    · have := hall m hm
      rw [hv] at this
      simp at this

/-- The order of the mappings does not matter. -/
theorem checkRenderLib_perm (hperm : res'.maps.Perm res.maps)
    (hinc : res'.incomplete = res.incomplete) :
    (checkRenderLib find t res').1 = (checkRenderLib find t res).1 := by
  have href' : t.RefersTo find ref res'.maps := fun m hm => href m (hperm.mem_iff.1 hm)
  rw [checkRenderLib_fst halive hmem href, checkRenderLib_fst halive hmem href', hinc,
    hperm.any_eq, hperm.any_eq, hperm.any_eq]

end Verdict

end Loops

/-! ### The verdict -/

/-- The verdict is hooked exactly if one mapping shows a hook, and clean only if nothing is missing,
no mapping is inconclusive and one compares equal. So the order of the mappings does not matter, and
mappings added to the list cannot hide a hook or a comparison that failed. -/
theorem checkRenderLib_verdict (find : Bytes → Option (AcElfLoc × UInt64)) (t : Target)
    (mem : UInt64 → Option UInt8) (ref : AcMapId → Option Reference) (res : AcLibResult)
    (halive : t.alive = true) (hmem : t.mem = some mem) (href : t.RefersTo find ref res.maps) :
    ((checkRenderLib find t res).1 = .hooked ↔
      ∃ m ∈ res.maps, ∃ id r, t.identity m = some id ∧ ref id = some r ∧
        ShowsHook mem (t.inLoad id) m r) ∧
    ((checkRenderLib find t res).1 = .clean → res.incomplete = false ∧
      (∀ m ∈ res.maps, ∃ id r, t.identity m = some id ∧ ref id = some r ∧
        (ComparesEqual mem m r ∨ PredictsNothing mem (t.inLoad id) m r)) ∧
      ∃ m ∈ res.maps, ∃ id r, t.identity m = some id ∧ ref id = some r ∧ ComparesEqual mem m r) ∧
    (∀ res' : AcLibResult, res'.maps.Perm res.maps → res'.incomplete = res.incomplete →
      (checkRenderLib find t res').1 = (checkRenderLib find t res).1) ∧
    ∀ res' : AcLibResult, t.RefersTo find ref res'.maps → res.maps ⊆ res'.maps →
      ((checkRenderLib find t res).1 = .hooked → (checkRenderLib find t res').1 = .hooked) ∧
      ((∃ m ∈ res.maps, t.verdict mem ref m = .inconclusive) →
        (checkRenderLib find t res').1 ≠ .clean) := by
  have hhooked := checkRenderLib_eq_hooked_iff halive hmem href
  refine ⟨?_, fun hclean => ?_, fun res' => checkRenderLib_perm halive hmem href,
    fun res' href' hsub => ⟨fun h => ?_, ?_⟩⟩
  · rw [hhooked]
    simp only [Target.verdict_eq_iff (by decide : RenderCmp.hooked ≠ .inconclusive),
      compareRenderMap_eq_hooked_iff]
  · obtain ⟨hcomplete, hall, m, hm, hv⟩ := (checkRenderLib_eq_clean_iff halive hmem href).1 hclean
    refine ⟨hcomplete, fun m hm => ?_, m, hm, ?_⟩
    · rcases hall m hm with hv | hv <;>
        obtain ⟨id, r, hid, hr, hcmp⟩ := (Target.verdict_eq_iff (by decide)).1 hv
      · exact ⟨id, r, hid, hr, .inl (compareRenderMap_eq_clean_iff.1 hcmp)⟩
      · exact ⟨id, r, hid, hr, .inr (compareRenderMap_eq_nothing_iff.1 hcmp)⟩
    · obtain ⟨id, r, hid, hr, hcmp⟩ := (Target.verdict_eq_iff (by decide)).1 hv
      exact ⟨id, r, hid, hr, compareRenderMap_eq_clean_iff.1 hcmp⟩
  · obtain ⟨m, hm, hv⟩ := hhooked.1 h
    exact (checkRenderLib_eq_hooked_iff halive hmem href').2 ⟨m, hsub hm, hv⟩
  · rintro ⟨m, hm, hv⟩ hclean
    have := ((checkRenderLib_eq_clean_iff halive hmem href').1 hclean).2.1 m (hsub hm)
    rw [hv] at this
    simp at this

/-- A file whose symbol is eight bytes at offset `0x10`. -/
def sampleFind : Bytes → Option (AcElfLoc × UInt64) := fun _ => some (⟨0x10, 0, 0x1000⟩, 8)

def sampleFile : MapFile := ⟨some ⟨true, ⟨1, 7⟩⟩, List.replicate 24 0x90⟩

/-- A process in which the symbol is patched at `0x1010` and intact at `0x5010`. -/
def patchedTarget : Target where
  alive := true
  mem := some fun a => if a < 0x2000 then some 0xcc else some 0x90
  stat := fun _ _ => sampleFile.st
  openFile := fun _ _ => some sampleFile
  inLoad := fun _ _ _ => .yes

/-- An intact mapping of the library before the patched one. -/
def decoyFirst : AcLibResult where
  incomplete := false
  maps := [⟨0x5000, 0x6000, 0, 7, []⟩, ⟨0x1000, 0x2000, 0, 7, []⟩]
  le := by decide

theorem checkRenderLib_verdict_decoyFirst :
    (checkRenderLib sampleFind patchedTarget decoyFirst).1 = .hooked ∧
      ∃ m ∈ decoyFirst.maps, ∃ id r, patchedTarget.identity m = some id ∧
        loadRenderReference sampleFind (some sampleFile) id = some r ∧
        ShowsHook (fun a => if a < 0x2000 then some 0xcc else some 0x90)
          (patchedTarget.inLoad id) m r :=
  have hhooked : (checkRenderLib sampleFind patchedTarget decoyFirst).1 = .hooked := by
    decide +kernel
  have hverdict := checkRenderLib_verdict sampleFind patchedTarget _
    (loadRenderReference sampleFind (some sampleFile)) decoyFirst rfl rfl fun _ _ _ _ => rfl
  ⟨hhooked, hverdict.1.1 hhooked⟩

end Anticheat.Render
