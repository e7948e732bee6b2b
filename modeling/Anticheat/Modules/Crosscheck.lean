import Anticheat.Lib.CText
import Mathlib.Data.List.Count

/-!
# Hidden modules

`MODS_BEGIN` and `MODS_GET` hand the kernel's own list of modules to the daemon, and
`crosscheck_modules` looks each of them up in `/proc/modules`. The kernel side stops at
`AC_MAX_MODS` modules and says nothing when it does; the daemon side reads the text through a
buffer of 256 bytes.
-/

namespace Anticheat.Modules

open CText

/-! ### The kernel side -/

/-- `AC_MOD_NAME_LEN` -/
def acModNameLen : ℕ := 64

/-- `AC_MAX_MODS` -/
def acMaxMods : ℕ := 1024

/-- The `MODULE_STATE_*` of the kernel. -/
inductive ModuleState
  | live
  | coming
  | going
  | unformed
  deriving DecidableEq, Repr

/-- What the walk reads of a `struct module`. The name is a C string in a buffer of 56 bytes. -/
structure Module where
  name : Bytes
  name_lt : name.length < 56
  noNul : 0 ∉ name
  /-- `is_vmalloc_or_module_addr` of the structure itself -/
  inModuleArea : Bool
  state : ModuleState
  textBase : ℕ
  textSize : ℕ
  deriving DecidableEq

/-- `ac_module_sane` -/
def acModuleSane (m : Module) : Bool :=
  m.inModuleArea && m.state = .live && (m.textBase ≠ 0 && m.textSize ≠ 0) &&
    m.textSize ≤ 0x40000000

/-- `struct ac_mod_info`, without the size, which is only printed. -/
structure AcModInfo where
  name : Bytes
  state : ModuleState
  deriving DecidableEq, Repr

def Module.info (m : Module) : AcModInfo := ⟨m.name.take (acModNameLen - 1), m.state⟩

/-- `ac_build_mod_snapshot`: the walk over the ring of modules, with `n` entries filled so far. -/
def acBuildModSnapshot (n : ℕ) : List Module → List AcModInfo
  | [] => []
  | m :: ring =>
    if !acModuleSane m then acBuildModSnapshot n ring
    else if acMaxMods ≤ n then []
    else m.info :: acBuildModSnapshot (n + 1) ring

/-! ### The daemon side -/

/-- `AC_MAX_PROC_MODS` -/
def acMaxProcMods : ℕ := 4096

/-- The loop of `collect_proc_modules` over the pieces that `fgets` reads, with the names found so
far; `none` is the result -1 for a table that is full before the text ends. -/
def collectProcModules (cap : ℕ) (names : List Bytes) : List Bytes → Option (List Bytes)
  | [] => some names
  | l :: ls =>
    if names.length < cap then
      match scanWord 63 l with
      | some w => collectProcModules cap (names ++ [w]) ls
      | none => collectProcModules cap names ls
    else none

/-- Which of the daemon's system calls succeed. -/
structure Env where
  /-- `MODS_BEGIN` -/
  begins : Bool
  /-- `MODS_GET` at each index -/
  gets : ℕ → Bool
  /-- `fopen` of `/proc/modules` -/
  opens : Bool

/-- The walk over the snapshot from index `i` on, with the number of hidden modules so far. -/
def walk (gets : ℕ → Bool) (names : List Bytes) (i hidden : ℕ) : List AcModInfo → ℤ
  | [] => hidden
  | m :: ms =>
    if !gets i then -1
    else walk gets names (i + 1) (if m.name ∈ names then hidden else hidden + 1) ms

/-- `crosscheck_modules` against the text of `/proc/modules` -/
def crosscheckModules (env : Env) (ring : List Module) (text : Bytes) : ℤ :=
  if !env.begins then -1
  else
    let mods := acBuildModSnapshot 0 ring
    if acMaxMods < mods.length then -1
    else if !env.opens then -1
    else
      match collectProcModules acMaxProcMods [] (fgetsAll 256 text) with
      | none => -1
      | some names => walk env.gets names 0 0 mods

/-! ### What the result is about -/

/-- The modules that `ac_module_sane` accepts. -/
def accepted (ring : List Module) : List Module := ring.filter acModuleSane

/-- The name is the first field of a line of the text. -/
def Listed (text : Bytes) (m : Module) : Prop := m.name ∈ (text.splitOn 10).filterMap firstField

/-- The name is the first word of a piece that `fgets` reads. -/
def Seen (text : Bytes) (m : Module) : Prop :=
  m.name ∈ (fgetsAll 256 text).filterMap (scanWord 63)

instance (text : Bytes) : DecidablePred (Listed text) := fun m =>
  inferInstanceAs (Decidable (m.name ∈ (text.splitOn 10).filterMap firstField))

instance (text : Bytes) : DecidablePred (Seen text) := fun m =>
  inferInstanceAs (Decidable (m.name ∈ (fgetsAll 256 text).filterMap (scanWord 63)))

/-- A result means what it is taken for: 0 that every accepted module is listed, a positive number
that so many are not, and nothing else is returned but -1. -/
def Sound (r : ℤ) (ring : List Module) (text : Bytes) : Prop :=
  (r = 0 → ∀ m ∈ accepted ring, Listed text m) ∧
    (∀ h : ℕ, 0 < h → r = h → (accepted ring).countP (¬ Listed text ·) = h) ∧
    (r = 0 ∨ (∃ h : ℕ, 0 < h ∧ r = h) ∨ r = -1)

/-- The table of names fills up before the text ends. -/
def TableFull (text : Bytes) : Prop :=
  ∃ p l q, fgetsAll 256 text = p ++ l :: q ∧
    (p.filterMap (scanWord 63)).length = acMaxProcMods

/-- The inputs for which the check gives up. -/
def Inconclusive (env : Env) (ring : List Module) (text : Bytes) : Prop :=
  env.begins = false ∨ env.opens = false ∨ TableFull text ∨
    ∃ i < min (accepted ring).length acMaxMods, env.gets i = false

/-- The modules past the snapshot's cap that are not listed. -/
def missed (ring : List Module) (text : Bytes) : ℕ :=
  ((accepted ring).drop acMaxMods).countP (¬ Listed text ·)

/-- The modules of the snapshot that are not listed, but have their name in front of some piece of a
longer line. -/
def cleared (ring : List Module) (text : Bytes) : ℕ :=
  ((accepted ring).take acMaxMods).countP fun m => ¬ Listed text m ∧ Seen text m

/-- The modules of the snapshot that are listed, but not in front of a piece. -/
def flagged (ring : List Module) (text : Bytes) : ℕ :=
  ((accepted ring).take acMaxMods).countP fun m => Listed text m ∧ ¬ Seen text m

/-! ### The snapshot and the table of names -/

variable {env : Env} {ring : List Module} {text : Bytes}

lemma acBuildModSnapshot_eq (n : ℕ) (ring : List Module) :
    acBuildModSnapshot n ring = ((accepted ring).take (acMaxMods - n)).map Module.info := by
  induction ring generalizing n with
  | nil => simp [acBuildModSnapshot, accepted]
  | cons m ring ih =>
    rw [acBuildModSnapshot, accepted, List.filter_cons]
    by_cases hm : acModuleSane m
    · simp only [hm, Bool.not_true, Bool.false_eq_true, if_false, if_true]
      split_ifs with hn
      · rw [Nat.sub_eq_zero_of_le hn, List.take_zero, List.map_nil]
      · rw [ih, show acMaxMods - n = acMaxMods - (n + 1) + 1 by omega, List.take_succ_cons,
          List.map_cons, accepted]
    · simp [hm, ih, accepted]

@[simp] lemma info_name (m : Module) : m.info.name = m.name := by
  have hlt := m.name_lt
  exact List.take_of_length_le (by simp only [acModNameLen]; omega)

lemma collectProcModules_eq_some {cap : ℕ} {names names' ls : List Bytes}
    (h : collectProcModules cap names ls = some names') :
    names' = names ++ ls.filterMap (scanWord 63) := by
  induction ls generalizing names with
  | nil =>
    cases h
    simp
  | cons l ls ih =>
    rw [collectProcModules] at h
    split_ifs at h
    cases hw : scanWord 63 l with
    | some w =>
      rw [hw] at h
      rw [ih h, List.filterMap_cons_some hw, List.append_assoc, List.singleton_append]
    | none =>
      rw [hw] at h
      rw [ih h, List.filterMap_cons_none hw]

lemma exists_split_cons {α : Type*} {a : α} {l : List α} {Q : List α → Prop} :
    (∃ p b q, a :: l = p ++ b :: q ∧ Q p) ↔ Q [] ∨ ∃ p b q, l = p ++ b :: q ∧ Q (a :: p) := by
  constructor
  · rintro ⟨p, b, q, hl, hQ⟩
    cases p with
    | nil => exact .inl hQ
    | cons c p =>
      rw [List.cons_append, List.cons.injEq] at hl
      obtain ⟨rfl, hl⟩ := hl
      exact .inr ⟨p, b, q, hl, hQ⟩
  · rintro (hQ | ⟨p, b, q, rfl, hQ⟩)
    · exact ⟨[], a, l, rfl, hQ⟩
    · exact ⟨a :: p, b, q, rfl, hQ⟩

lemma collectProcModules_eq_none {cap : ℕ} (names : List Bytes) {ls : List Bytes}
    (hcap : names.length ≤ cap) :
    collectProcModules cap names ls = none ↔ ∃ p l q, ls = p ++ l :: q ∧
      names.length + (p.filterMap (scanWord 63)).length = cap := by
  induction ls generalizing names with
  | nil => simp [collectProcModules]
  | cons l ls ih =>
    rw [collectProcModules, exists_split_cons]
    split_ifs with hlt
    · have hzero : names.length + ([].filterMap (scanWord 63)).length ≠ cap := by
        rw [List.filterMap_nil, List.length_nil]
        omega
      rw [or_iff_right hzero]
      cases hw : scanWord 63 l with
      | some w =>
        have hlen : (names ++ [w]).length = names.length + 1 := by simp
        simp only [ih (names ++ [w]) (by omega), hlen, List.filterMap_cons_some hw,
          List.length_cons, Nat.add_assoc, Nat.add_comm 1]
      | none => simp only [ih names hcap, List.filterMap_cons_none hw]
    · have hfull : names.length = cap := by omega
      simp [hfull]

/-! ### The walk -/

lemma walk_of_gets {gets : ℕ → Bool} (names : List Bytes) {mods : List AcModInfo} {i : ℕ}
    (hgets : ∀ j < mods.length, gets (i + j) = true) (hidden : ℕ) :
    walk gets names i hidden mods = hidden + mods.countP (·.name ∉ names) := by
  induction mods generalizing i hidden with
  | nil => simp [walk]
  | cons m mods ih =>
    have hfirst : gets i = true := hgets 0 (by simp)
    have hrest : ∀ j < mods.length, gets (i + 1 + j) = true := by
      intro j hj
      have := hgets (j + 1) (by simpa using hj)
      rwa [← Nat.add_assoc, Nat.add_right_comm] at this
    rw [walk, hfirst, ih hrest, List.countP_cons]
    by_cases hm : m.name ∈ names
    · simp [hm]
    · simp [hm]
      omega

lemma walk_of_not_gets {gets : ℕ → Bool} (names : List Bytes) {mods : List AcModInfo} {i : ℕ}
    (hgets : ∃ j < mods.length, gets (i + j) = false) (hidden : ℕ) :
    walk gets names i hidden mods = -1 := by
  induction mods generalizing i hidden with
  | nil =>
    obtain ⟨j, hj, -⟩ := hgets
    cases hj
  | cons m mods ih =>
    rw [walk]
    cases hfirst : gets i with
    | false => rfl
    | true =>
      obtain ⟨j, hj, hfail⟩ := hgets
      cases j with
      | zero => simp [hfirst] at hfail
      | succ j =>
        refine ih ⟨j, by simpa using hj, ?_⟩ _
        rwa [Nat.add_assoc, Nat.add_comm 1]

/-! ### The result -/

lemma length_snapshot (ring : List Module) :
    (acBuildModSnapshot 0 ring).length = min (accepted ring).length acMaxMods := by
  rw [acBuildModSnapshot_eq, List.length_map, List.length_take, Nat.sub_zero, min_comm]

lemma crosscheckModules_of_inconclusive (h : Inconclusive env ring text) :
    crosscheckModules env ring text = -1 := by
  have hlen : ¬ acMaxMods < (acBuildModSnapshot 0 ring).length := by
    rw [length_snapshot]
    omega
  unfold crosscheckModules
  dsimp only
  rw [if_neg hlen]
  split_ifs with hbegins hopens
  · rfl
  · rfl
  · cases hcol : collectProcModules acMaxProcMods [] (fgetsAll 256 text) with
    | none => rfl
    | some names =>
      rcases h with hb | ho | hfull | ⟨i, hi, hget⟩
      · simp [hb] at hbegins
      · simp [ho] at hopens
      · have hnone := (collectProcModules_eq_none [] (Nat.zero_le acMaxProcMods)).mpr
          (by simpa [TableFull] using hfull)
        rw [hcol] at hnone
        cases hnone
      · exact walk_of_not_gets names ⟨i, by rwa [length_snapshot], by rwa [Nat.zero_add]⟩ 0

/-- A check that does not give up counts the modules of the snapshot that it did not see. -/
lemma crosscheckModules_of_conclusive (h : ¬ Inconclusive env ring text) :
    crosscheckModules env ring text =
      ((accepted ring).take acMaxMods).countP (¬ Seen text ·) := by
  simp only [Inconclusive, not_or, not_exists, not_and, Bool.not_eq_false] at h
  obtain ⟨hbegins, hopens, hfull, hgets⟩ := h
  have hlen : ¬ acMaxMods < (acBuildModSnapshot 0 ring).length := by
    rw [length_snapshot]
    omega
  cases hcol : collectProcModules acMaxProcMods [] (fgetsAll 256 text) with
  | none =>
    refine absurd ?_ hfull
    simpa [TableFull] using
      (collectProcModules_eq_none [] (Nat.zero_le acMaxProcMods)).mp hcol
  | some names =>
    have hnames := collectProcModules_eq_some hcol
    rw [List.nil_append] at hnames
    unfold crosscheckModules
    dsimp only
    rw [if_neg hlen, hbegins, hopens, hcol]
    simp only [Bool.not_true, Bool.false_eq_true, if_false]
    rw [walk_of_gets names (fun j hj => by
      rw [length_snapshot] at hj
      rw [Nat.zero_add]
      exact hgets j hj), acBuildModSnapshot_eq, Nat.sub_zero, List.countP_map]
    simp [hnames, Seen, Function.comp_def]

/-- The modules not seen and the modules not listed differ by those cleared, flagged or missed. -/
lemma countP_not_seen_add (ring : List Module) (text : Bytes) :
    ((accepted ring).take acMaxMods).countP (¬ Seen text ·) + (missed ring text + cleared ring text)
      = (accepted ring).countP (¬ Listed text ·) + flagged ring text := by
  have hsplit := List.take_append_drop acMaxMods (accepted ring)
  have hall : (accepted ring).countP (¬ Listed text ·) =
      ((accepted ring).take acMaxMods).countP (¬ Listed text ·) + missed ring text := by
    rw [missed, ← List.countP_append, hsplit]
  have htake : ∀ l : List Module,
      l.countP (¬ Seen text ·) + l.countP (fun m => ¬ Listed text m ∧ Seen text m) =
        l.countP (¬ Listed text ·) + l.countP (fun m => Listed text m ∧ ¬ Seen text m) := by
    intro l
    induction l with
    | nil => rfl
    | cons m l ih =>
      simp only [List.countP_cons]
      by_cases hs : Seen text m <;> by_cases hl : Listed text m <;> simp [hs, hl] at ih ⊢ <;> omega
  have := htake ((accepted ring).take acMaxMods)
  rw [hall, cleared, flagged]
  omega

lemma sound_natCast_iff {r : ℕ} :
    Sound (r : ℤ) ring text ↔ (accepted ring).countP (¬ Listed text ·) = r := by
  have hzero : (accepted ring).countP (¬ Listed text ·) = 0 ↔
      ∀ m ∈ accepted ring, Listed text m := by
    simp [List.countP_eq_zero]
  constructor
  · rintro ⟨hnone, hsome, -⟩
    rcases Nat.eq_zero_or_pos r with rfl | hpos
    · exact hzero.mpr (hnone rfl)
    · exact hsome r hpos rfl
  · rintro rfl
    refine ⟨fun h => hzero.mp (by exact_mod_cast h), fun h _ heq => by exact_mod_cast heq, ?_⟩
    rcases Nat.eq_zero_or_pos ((accepted ring).countP (¬ Listed text ·)) with h0 | hpos
    · exact .inl (by exact_mod_cast h0)
    · exact .inr (.inl ⟨_, hpos, rfl⟩)

/-- The result is sound exactly when the check gives up, or when the unlisted modules it overlooks
past its cap and in long lines are as many as the listed ones it takes for hidden. -/
theorem crosscheckModules_sound_iff (env : Env) (ring : List Module) (text : Bytes) :
    Sound (crosscheckModules env ring text) ring text ↔
      Inconclusive env ring text ∨ missed ring text + cleared ring text = flagged ring text := by
  by_cases hinc : Inconclusive env ring text
  · rw [crosscheckModules_of_inconclusive hinc]
    refine iff_of_true ⟨by omega, fun h hpos heq => by omega, .inr (.inr rfl)⟩ (.inl hinc)
  · have hcount := countP_not_seen_add ring text
    rw [crosscheckModules_of_conclusive hinc, or_iff_right hinc]
    rw [sound_natCast_iff]
    omega

/-! ### Where the check is exact -/

/-- The cut of `%63s` is past the end of every module name. -/
lemma map_take_eq_some_name (m : Module) {w : Option Bytes} :
    w.map (·.take 63) = some m.name ↔ w = some m.name := by
  have hlt := m.name_lt
  rw [Option.map_eq_some_iff]
  constructor
  · rintro ⟨w, rfl, hw⟩
    have hlen : (w.take 63).length = min 63 w.length := List.length_take
    rw [hw] at hlen
    rw [← hw, List.take_of_length_le (by omega)]
  · rintro rfl
    exact ⟨_, rfl, List.take_of_length_le (by omega)⟩

/-- In lines that fit the buffer the check sees what is listed. -/
lemma seen_iff_listed (hlines : ∀ l ∈ text.splitOn 10, l.length < 255 ∧ 0 ∉ l) (m : Module) :
    Seen text m ↔ Listed text m := by
  have hpieces : (fgetsAll 256 text).filterMap (scanWord 63) =
      (text.splitOn 10).filterMap (scanWord 63) := by
    refine filterMap_fgetsAll rfl (fun l hl => ?_) (fun l hl => ?_)
    · have hnul := (hlines l hl).2
      rw [scanWord_of_noNul (by simpa using hnul), firstField_append_newline,
        scanWord_of_noNul hnul]
    · have hlt := (hlines l hl).1
      omega
  rw [Seen, hpieces, Listed, List.mem_filterMap, List.mem_filterMap]
  refine exists_congr fun l => and_congr_right fun hl => ?_
  rw [scanWord_of_noNul (hlines l hl).2, map_take_eq_some_name]

/-- With room for every module and for every line, a check that does not give up counts the modules
that are not listed. -/
theorem crosscheckModules_eq_of_short_lines (hinc : ¬ Inconclusive env ring text)
    (hmods : (accepted ring).length ≤ acMaxMods)
    (hlines : ∀ l ∈ text.splitOn 10, l.length < 255 ∧ 0 ∉ l) :
    crosscheckModules env ring text = (accepted ring).countP (¬ Listed text ·) := by
  rw [crosscheckModules_of_conclusive hinc, List.take_of_length_le hmods]
  simp only [seen_iff_listed hlines]

/-! ### A module past the cap -/

/-- A live module of the given name. -/
def liveModule (name : Bytes) (hlt : name.length < 56) (hnul : 0 ∉ name) : Module :=
  ⟨name, hlt, hnul, true, .live, 1, 1⟩

/-- 1024 modules named "a", and then one named "b". -/
def crowdedRing : List Module :=
  List.replicate acMaxMods (liveModule [97] (by decide) (by decide)) ++
    [liveModule [98] (by decide) (by decide)]

/-- The text "a 1 0 - Live" with a newline. -/
def crowdedText : Bytes := [97, 32, 49, 32, 48, 32, 45, 32, 76, 105, 118, 101, 10]

/-- The module past the cap is not listed, and the check calls the ring clean. -/
theorem crosscheckModules_overlooks :
    crosscheckModules ⟨true, fun _ => true, true⟩ crowdedRing crowdedText = 0 ∧
      ¬ Sound (crosscheckModules ⟨true, fun _ => true, true⟩ crowdedRing crowdedText)
        crowdedRing crowdedText := by
  have hclean : crosscheckModules ⟨true, fun _ => true, true⟩ crowdedRing crowdedText = 0 := by
    decide +kernel
  have hhidden : ¬ ∀ m ∈ accepted crowdedRing, Listed crowdedText m := by
    decide +kernel
  exact ⟨hclean, fun hsound => hhidden (hsound.1 hclean)⟩

end Anticheat.Modules
