import Anticheat.Lib.CText
import Anticheat.Report.Body

/-!
# Reading the environment of a process

`ac_read_environ_vars` reads `/proc/<pid>/environ` through a buffer of fixed size and looks for
several variables in one pass. The content is a list of entries, each ended by a NUL, of which the
first one for a name counts.
-/

namespace Anticheat.Periodic

open CText (Bytes)
open Report (bytes)

/-- `AC_ENVIRON_BUF` -/
def acEnvironBuf : ℕ := 256 * 1024

/-- `AC_ENVIRON_VAL_LEN` -/
def acEnvironValLen : ℕ := 512

/-- `struct ac_environ_query` -/
structure AcEnvironQuery where
  name : Bytes
  found : Bool
  value : Bytes
  deriving DecidableEq, Repr

/-- What a call of `read` does: it is interrupted, it fails, or it returns up to `n + 1` bytes. -/
inductive ReadStep where
  | eintr
  | error
  | chunk (n : ℕ)
  deriving DecidableEq, Repr

/-- What the daemon meets when it reads the environment of a process. After the listed calls every
`read` returns all that it is asked for. -/
structure EnvironIo where
  opened : Bool
  malloc : Bool
  content : Bytes
  reads : List ReadStep
  deriving DecidableEq, Repr

/-- The loop around `read`: what is left of the file and what the buffer of `cap` bytes holds. -/
def readEnviron (cap : ℕ) : List ReadStep → Bytes → Bytes → Option Bytes
  | [], rest, buf => some (buf ++ rest.take (cap - buf.length))
  | step :: steps, rest, buf =>
    if buf.length < cap then
      match step with
      | .eintr => readEnviron cap steps rest buf
      | .error => none
      | .chunk n =>
        let got := rest.take (min (n + 1) (cap - buf.length))
        if got.length = 0 then some buf
        else readEnviron cap steps (rest.drop got.length) (buf ++ got)
    else some buf

/-- What is done with one entry for one of the names. -/
def AcEnvironQuery.scanEntry (entry : Bytes) (q : AcEnvironQuery) : AcEnvironQuery :=
  if !q.found && q.name.length < entry.length && entry.take q.name.length = q.name &&
      entry[q.name.length]? = some 61 then
    { q with
      value := (entry.drop (q.name.length + 1)).take (acEnvironValLen - 1)
      found := true }
  else q

/-- The loop over the entries, from a position in the buffer on. -/
def scanEntries (rest : Bytes) (vars : List AcEnvironQuery) : List AcEnvironQuery :=
  match rest with
  | [] => vars
  | c :: rest =>
    -- `strlen` stops at the NUL after the buffer at the latest
    let entry := (c :: rest).takeWhile (· ≠ 0)
    if entry.length = 0 then scanEntries rest vars
    else scanEntries (rest.drop entry.length) (vars.map (AcEnvironQuery.scanEntry entry))
termination_by rest.length
decreasing_by all_goals simp

/-- `ac_read_environ_vars`: the result and the queries. -/
def acReadEnvironVars (io : EnvironIo) (vars : List AcEnvironQuery) : ℤ × List AcEnvironQuery :=
  let vars := vars.map fun q => { q with found := false }
  if !io.opened then (-1, vars)
  else if !io.malloc then (-1, vars)
  else
    match readEnviron (acEnvironBuf - 1) io.reads io.content [] with
    | none => (-1, vars)
    | some buf =>
      if buf.length = 0 then (0, vars)
      else (if acEnvironBuf - 1 ≤ buf.length then -1 else 0, scanEntries buf vars)

/-! ### The variables of an environment -/

/-- The value of a variable: the rest of the first entry that starts with its name and `=`. -/
def getEnv (content name : Bytes) : Option Bytes :=
  ((content.splitOn 0).find? fun entry => (name ++ [61]).isPrefixOf entry).map
    fun entry => entry.drop (name.length + 1)

section

variable {content name entry rest v : Bytes}

lemma getEnv_single (h : 0 ∉ entry) :
    getEnv entry name =
      if name ++ [61] <+: entry then some (entry.drop (name.length + 1)) else none := by
  rw [getEnv, List.splitOn_eq_singleton h, List.find?_singleton]
  simp only [List.isPrefixOf_iff_prefix]
  split_ifs <;> rfl

lemma getEnv_append (h : 0 ∉ entry) :
    getEnv (entry ++ 0 :: rest) name =
      if name ++ [61] <+: entry then some (entry.drop (name.length + 1))
      else getEnv rest name := by
  have hsplit : (entry ++ 0 :: rest).splitOn 0 = entry :: rest.splitOn 0 := by
    refine List.splitOnP_append_cons_of_forall_mem ?_ 0 (by simp) rest
    intro x hx
    have hx0 : x ≠ 0 := ne_of_mem_of_not_mem hx h
    simpa using hx0
  rw [getEnv, hsplit]
  split_ifs with hp
  · rw [List.find?_cons_of_pos (List.isPrefixOf_iff_prefix.mpr hp), Option.map_some]
  · rw [List.find?_cons_of_neg (mt List.isPrefixOf_iff_prefix.mp hp), getEnv]

/-- A content is one entry without a final NUL, or an entry with its NUL before a content. -/
@[elab_as_elim]
lemma entryInduction {P : Bytes → Prop} (last : ∀ entry, 0 ∉ entry → P entry)
    (cons : ∀ entry rest, 0 ∉ entry → P rest → P (entry ++ 0 :: rest)) (content : Bytes) :
    P content := by
  induction hn : content.length using Nat.strongRecOn generalizing content with
  | _ n ih =>
    by_cases h0 : 0 ∈ content
    · obtain ⟨entry, rest, rfl, hentry⟩ := List.eq_append_cons_of_mem h0
      refine cons entry rest hentry (ih rest.length ?_ rest rfl)
      rw [← hn]
      simp
      omega
    · exact last content h0

/-! ### The loop around `read` -/

/-- The buffer gets the beginning of the file, however the calls split it, unless one of them
fails. -/
lemma readEnviron_cases {cap : ℕ} (steps : List ReadStep) (rest : Bytes) {buf : Bytes}
    (hbuf : buf.length ≤ cap) :
    readEnviron cap steps rest buf = some ((buf ++ rest).take cap) ∨
      readEnviron cap steps rest buf = none ∧ .error ∈ steps := by
  induction steps generalizing rest buf with
  | nil =>
    left
    rw [readEnviron, List.take_append, List.take_of_length_le hbuf]
  | cons step steps ih =>
    by_cases hroom : buf.length < cap
    · cases step with
      | eintr =>
        rw [readEnviron, if_pos hroom]
        exact (ih rest hbuf).imp_right (.imp_right (List.mem_cons_of_mem _))
      | error =>
        right
        rw [readEnviron, if_pos hroom]
        exact ⟨rfl, List.mem_cons_self⟩
      | chunk n =>
        rw [readEnviron, if_pos hroom]
        simp only
        split_ifs with hgot
        · -- nothing was left to read
          left
          have hrest : rest = [] := by
            rw [List.length_take] at hgot
            rw [← List.length_eq_zero_iff]
            omega
          rw [hrest, List.append_nil, List.take_of_length_le hbuf]
        · -- what was read now and what is still left are what was left before
          have hrest := List.prefix_iff_eq_append.mp
            (List.take_prefix (min (n + 1) (cap - buf.length)) rest)
          have hbuf' : (buf ++ rest.take (min (n + 1) (cap - buf.length))).length ≤ cap := by
            rw [List.length_append, List.length_take]
            omega
          have h := ih (rest.drop (rest.take (min (n + 1) (cap - buf.length))).length) hbuf'
          rw [List.append_assoc, hrest] at h
          exact h.imp_right (.imp_right (List.mem_cons_of_mem _))
    · left
      rw [readEnviron.eq_def]
      simp only [if_neg hroom]
      rw [List.take_append_of_le_length (Nat.le_of_not_lt hroom), List.take_of_length_le hbuf]

/-! ### The loop over the entries -/

/-- The query after its answer is known, unless it has one already. -/
def AcEnvironQuery.answer (q : AcEnvironQuery) (v : Option Bytes) : AcEnvironQuery :=
  match q.found, v with
  | false, some v => { q with value := v.take (acEnvironValLen - 1), found := true }
  | _, _ => q

lemma starts_iff :
    (name.length < entry.length ∧ entry.take name.length = name ∧ entry[name.length]? = some 61) ↔
      name ++ [61] <+: entry := by
  constructor
  · rintro ⟨-, htake, hget⟩
    rw [List.prefix_iff_eq_take, List.length_append, List.length_singleton, List.take_add_one,
      htake, hget]
    rfl
  · rintro ⟨rest, rfl⟩
    simp

lemma AcEnvironQuery.scanEntry_eq (h : 0 ∉ entry) (q : AcEnvironQuery) :
    q.scanEntry entry = q.answer (getEnv entry q.name) := by
  obtain ⟨name, found, value⟩ := q
  rw [getEnv_single h]
  cases found with
  | true => rfl
  | false =>
    simp only [scanEntry, Bool.not_false, Bool.true_and, Bool.and_eq_true, decide_eq_true_eq,
      and_assoc, starts_iff]
    split_ifs <;> rfl

/-- An answer that is there stays. -/
lemma AcEnvironQuery.answer_answer (q : AcEnvironQuery) (v w : Option Bytes) :
    (q.answer v).answer w = q.answer (v.or w) := by
  obtain ⟨name, found, value⟩ := q
  cases found <;> cases v <;> rfl

/-- No variable is found in an empty entry. -/
lemma map_scanEntry_nil (vars : List AcEnvironQuery) :
    vars.map (AcEnvironQuery.scanEntry []) = vars :=
  List.map_id'' (fun q => by simp [AcEnvironQuery.scanEntry]) vars

lemma scanEntries_single (h : 0 ∉ entry) (vars : List AcEnvironQuery) :
    scanEntries entry vars = vars.map (AcEnvironQuery.scanEntry entry) := by
  cases entry with
  | nil => rw [scanEntries, map_scanEntry_nil]
  | cons c entry =>
    have hall : (c :: entry).takeWhile (· ≠ 0) = c :: entry := by
      rw [List.takeWhile_eq_self_iff]
      intro x hx
      simpa using ne_of_mem_of_not_mem hx h
    rw [scanEntries]
    simp only [hall]
    rw [if_neg (by simp), List.drop_of_length_le (by simp), scanEntries]

lemma scanEntries_append (h : 0 ∉ entry) (vars : List AcEnvironQuery) :
    scanEntries (entry ++ 0 :: rest) vars =
      scanEntries rest (vars.map (AcEnvironQuery.scanEntry entry)) := by
  have htake : (entry ++ 0 :: rest).takeWhile (· ≠ 0) = entry := by
    rw [List.takeWhile_append_of_pos]
    · simp
    · intro x hx
      simpa using ne_of_mem_of_not_mem hx h
  cases entry with
  | nil =>
    rw [List.nil_append, scanEntries, map_scanEntry_nil]
    rfl
  | cons c entry =>
    rw [List.cons_append] at htake ⊢
    rw [scanEntries]
    simp only [htake]
    rw [if_neg (by simp)]
    congr 1
    simp

lemma scanEntries_eq (content : Bytes) (vars : List AcEnvironQuery) :
    scanEntries content vars = vars.map fun q => q.answer (getEnv content q.name) := by
  induction content using entryInduction generalizing vars with
  | last entry h =>
    rw [scanEntries_single h]
    exact List.map_congr_left fun q _ => q.scanEntry_eq h
  | cons entry rest h ih =>
    rw [scanEntries_append h, ih, List.map_map]
    refine List.map_congr_left fun q _ => ?_
    have hname : (q.scanEntry entry).name = q.name := by
      rw [AcEnvironQuery.scanEntry]
      split_ifs <;> rfl
    rw [Function.comp_apply, hname, q.scanEntry_eq h, q.answer_answer, getEnv_append h,
      getEnv_single h]
    split_ifs <;> rfl

/-! ### A buffer that is too small -/

lemma getEnv_cut {cap : ℕ} (hentry : 0 ∉ entry) (h : getEnv (entry.take cap) name = some v) :
    name ++ [61] <+: entry ∧ v <+: entry.drop (name.length + 1) ∧
      entry.take cap = name ++ 61 :: v := by
  rw [getEnv_single (fun h0 => hentry (List.mem_of_mem_take h0))] at h
  split_ifs at h with hp
  cases h
  refine ⟨hp.trans (List.take_prefix ..), (List.take_prefix ..).drop _, ?_⟩
  have hsplit := List.prefix_iff_eq_append.mp hp
  rw [List.length_append, List.length_singleton] at hsplit
  rw [← hsplit]
  simp

/-- What is found in the beginning of a content is the variable, except that the value of an entry
that is cut off may be cut. -/
lemma getEnv_take {cap : ℕ} (h : getEnv (content.take cap) name = some v) :
    ∃ w, getEnv content name = some w ∧
      (v = w ∨ v <+: w ∧ ∃ front, content.take cap = front ++ name ++ 61 :: v) := by
  induction content using entryInduction generalizing cap with
  | last entry hentry =>
    obtain ⟨hp, hv, htake⟩ := getEnv_cut hentry h
    exact ⟨_, by rw [getEnv_single hentry, if_pos hp], .inr ⟨hv, [], htake⟩⟩
  | cons entry rest hentry ih =>
    rw [getEnv_append hentry]
    obtain hlt | hle := Nat.lt_or_ge entry.length cap
    · -- the cut is in a later entry
      obtain ⟨k, rfl⟩ : ∃ k, cap = entry.length + (k + 1) := ⟨cap - entry.length - 1, by omega⟩
      rw [List.take_length_add_append, List.take_succ_cons] at h ⊢
      rw [getEnv_append hentry] at h
      split_ifs at h ⊢ with hp
      · exact ⟨v, h, .inl rfl⟩
      · obtain ⟨w, hw, hvw⟩ := ih h
        refine ⟨w, hw, hvw.imp_right ?_⟩
        rintro ⟨hv, front, hfront⟩
        exact ⟨hv, entry ++ 0 :: front, by rw [hfront]; simp⟩
    · rw [List.take_append_of_le_length hle] at h ⊢
      obtain ⟨hp, hv, htake⟩ := getEnv_cut hentry h
      exact ⟨_, if_pos hp, .inr ⟨hv, [], htake⟩⟩

end

/-! ### The result -/

/-- The query with the answer that the whole content gives. -/
def AcEnvironQuery.fill (content : Bytes) (q : AcEnvironQuery) : AcEnvironQuery :=
  match getEnv content q.name with
  | some v => { q with found := true, value := v.take (acEnvironValLen - 1) }
  | none => { q with found := false }

@[simp] lemma AcEnvironQuery.fill_found (q : AcEnvironQuery) (content : Bytes) :
    (q.fill content).found = (getEnv content q.name).isSome := by
  rw [fill]
  cases getEnv content q.name <;> rfl

lemma AcEnvironQuery.answer_reset (q : AcEnvironQuery) (content : Bytes) :
    ({ q with found := false } : AcEnvironQuery).answer (getEnv content q.name) =
      q.fill content := by
  rw [fill]
  cases getEnv content q.name <;> rfl

lemma EnvironIo.read_cases (io : EnvironIo) :
    readEnviron (acEnvironBuf - 1) io.reads io.content [] =
        some (io.content.take (acEnvironBuf - 1)) ∨
      readEnviron (acEnvironBuf - 1) io.reads io.content [] = none ∧ .error ∈ io.reads :=
  readEnviron_cases io.reads io.content (Nat.zero_le _)

/-- If no call fails, the queries are answered from what the buffer holds. -/
lemma acReadEnvironVars_eq {io : EnvironIo} (hopened : io.opened = true)
    (hmalloc : io.malloc = true)
    (hread : readEnviron (acEnvironBuf - 1) io.reads io.content [] =
      some (io.content.take (acEnvironBuf - 1))) (vars : List AcEnvironQuery) :
    acReadEnvironVars io vars =
      (if acEnvironBuf - 1 ≤ io.content.length then -1 else 0,
        vars.map (AcEnvironQuery.fill (io.content.take (acEnvironBuf - 1)))) := by
  have hscan : scanEntries (io.content.take (acEnvironBuf - 1))
      (vars.map fun q => { q with found := false }) =
        vars.map (AcEnvironQuery.fill (io.content.take (acEnvironBuf - 1))) := by
    rw [scanEntries_eq, List.map_map]
    exact List.map_congr_left fun q _ => q.answer_reset _
  have hlen := List.length_take (i := acEnvironBuf - 1) (l := io.content)
  have hcap : 0 < acEnvironBuf - 1 := by decide
  rw [acReadEnvironVars, hread]
  simp only [hopened, hmalloc, Bool.not_true, Bool.false_eq_true, if_false]
  by_cases hempty : (io.content.take (acEnvironBuf - 1)).length = 0
  · rw [if_pos hempty, if_neg (by omega), ← hscan, List.length_eq_zero_iff.mp hempty, scanEntries]
  · rw [if_neg hempty, hscan]
    congr 1
    exact if_congr (by omega) rfl rfl

/-- The environment is read in full. -/
structure EnvironIo.Full (io : EnvironIo) : Prop where
  opened : io.opened = true
  malloc : io.malloc = true
  read : readEnviron (acEnvironBuf - 1) io.reads io.content [] = some io.content
  length_lt : io.content.length < acEnvironBuf - 1

lemma acReadEnvironVars_of_full {io : EnvironIo} (h : io.Full) (vars : List AcEnvironQuery) :
    acReadEnvironVars io vars = (0, vars.map (AcEnvironQuery.fill io.content)) := by
  have htake := List.take_of_length_le (Nat.le_of_lt h.length_lt)
  rw [acReadEnvironVars_eq h.opened h.malloc (by rw [htake, h.read]), htake,
    if_neg (Nat.not_le_of_gt h.length_lt)]

lemma acReadEnvironVars_of_not_full {io : EnvironIo} (h : ¬ io.Full)
    (vars : List AcEnvironQuery) : (acReadEnvironVars io vars).1 = -1 := by
  by_cases hopened : io.opened = true
  · by_cases hmalloc : io.malloc = true
    · obtain hread | ⟨hread, -⟩ := io.read_cases
      · rw [acReadEnvironVars_eq hopened hmalloc hread]
        refine if_pos (Nat.le_of_not_lt fun hlt => h ⟨hopened, hmalloc, ?_, hlt⟩)
        rwa [List.take_of_length_le (Nat.le_of_lt hlt)] at hread
      · simp [acReadEnvironVars, hopened, hmalloc, hread]
    · simp [acReadEnvironVars, hopened, hmalloc]
  · simp [acReadEnvironVars, hopened]

/-- If the content is shorter than the buffer, the queries get the answers that the entries give;
otherwise the read fails, and what it has found is the variable, with a value that is cut only if
its entry is. -/
theorem acReadEnvironVars_spec (io : EnvironIo) (hopened : io.opened = true)
    (hmalloc : io.malloc = true) (hreads : .error ∉ io.reads) (vars : List AcEnvironQuery) :
    (io.content.length < acEnvironBuf - 1 →
      acReadEnvironVars io vars = (0, vars.map (AcEnvironQuery.fill io.content))) ∧
    (acEnvironBuf - 1 ≤ io.content.length →
      (acReadEnvironVars io vars).1 = -1 ∧
      List.Forall₂ (fun q q' => q'.name = q.name ∧ (q'.found = true →
          ∃ v, getEnv io.content q.name = some v ∧
            (q'.value = v.take (acEnvironValLen - 1) ∨
              ∃ cut front, cut <+: v ∧ q'.value = cut.take (acEnvironValLen - 1) ∧
                io.content.take (acEnvironBuf - 1) = front ++ q.name ++ 61 :: cut)))
        vars (acReadEnvironVars io vars).2) := by
  have hread := io.read_cases.resolve_right fun h => hreads h.2
  rw [acReadEnvironVars_eq hopened hmalloc hread]
  constructor
  · intro hlt
    rw [if_neg (Nat.not_le_of_gt hlt), List.take_of_length_le (Nat.le_of_lt hlt)]
  · intro hle
    refine ⟨if_pos hle, List.forall₂_map_right_iff.mpr (List.forall₂_same.mpr ?_)⟩
    intro q _
    rw [AcEnvironQuery.fill]
    cases h : getEnv (io.content.take (acEnvironBuf - 1)) q.name with
    | none => exact ⟨rfl, fun hfound => by cases hfound⟩
    | some cut =>
      obtain ⟨v, hv, rfl | ⟨hcut, front, hfront⟩⟩ := getEnv_take h
      · exact ⟨rfl, fun _ => ⟨cut, hv, .inl rfl⟩⟩
      · exact ⟨rfl, fun _ => ⟨v, hv, .inr ⟨cut, front, hcut, rfl, hfront⟩⟩⟩

/-- A content that starts with an empty entry and does not end with a NUL, read in pieces. -/
def unevenEnviron : EnvironIo :=
  ⟨true, true, 0 :: bytes "A=1" ++ 0 :: 0 :: bytes "B=x=y", [.chunk 1, .eintr, .chunk 0]⟩

theorem acReadEnvironVars_spec_uneven :
    acReadEnvironVars unevenEnviron
        [⟨bytes "B", false, []⟩, ⟨bytes "C", true, []⟩, ⟨bytes "A", false, []⟩] =
      (0, [⟨bytes "B", true, bytes "x=y"⟩, ⟨bytes "C", false, []⟩,
        ⟨bytes "A", true, bytes "1"⟩]) := by
  rw [(acReadEnvironVars_spec unevenEnviron rfl rfl (by decide) _).1 (by decide)]
  decide

end Anticheat.Periodic
