import Anticheat.Baseline.Records
import Anticheat.Lib.PartialMap
import Anticheat.Lib.Run

/-!
# Concurrent saves of baseline records

Any number of `baseline_save_record` calls on one baseline file, in any interleaving. A call takes
the lock, loads the records, writes the others and its own to a temporary file and renames it over
the baseline file. Every file operation may fail and every caller may be killed.
-/

namespace Anticheat.Baseline

open CText Transition

/-- The arguments of a `baseline_save_record`. -/
abbrev Save := { r : AcBaselineRec // r.Valid }

/-- `AC_BASELINE_SAVE_FULL` -/
def acBaselineSaveFull : ℤ := -2

/-- Where a call is. -/
inductive Phase
  /-- before `flock` has returned -/
  | start
  /-- the lock is held -/
  | locked
  /-- the records of the other segments are loaded -/
  | loaded (kept : List AcBaselineRec)
  /-- the temporary file is closed -/
  | written (tmp : Bytes)
  | renamed
  | returned (code : ℤ)
  | killed
  deriving DecidableEq, Repr

structure Caller where
  save : Save
  phase : Phase

/-- The baseline file (`none` when it is not there), the lock and the calls made so far. The last
two fields record which calls have renamed their file and which have got the lock, in order. -/
structure Sys where
  file : Option Bytes
  lock : Option ℕ
  calls : ℕ → Option Caller
  applied : List (ℕ × Save)
  order : List ℕ

/-- The file is absent and nobody has called yet. -/
def init : Sys := ⟨none, none, fun _ => none, [], []⟩

inductive Act
  | call (i : ℕ) (save : Save)
  /-- The operation that call `i` makes next fails, and the call sees it. -/
  | fail (i : ℕ)
  | flock (i : ℕ)
  | load (i : ℕ) (fault : ReadFault)
  /-- All records are printed, flushed and synced. -/
  | write (i : ℕ)
  /-- A write of `fprintf` fails, which is not looked at, and what follows it succeeds; `content`
  is what has reached the temporary file. -/
  | writeLost (i : ℕ) (content : Bytes)
  | rename (i : ℕ)
  | unlock (i : ℕ)
  | kill (i : ℕ)
  deriving DecidableEq

/-- The records of the other segments. -/
def others (recs : List AcBaselineRec) (save : Save) : List AcBaselineRec :=
  recs.filter (·.key ≠ save.1.key)

/-- The call goes on in another phase. -/
def Sys.goto (s : Sys) (i : ℕ) (c : Caller) (p : Phase) : Sys :=
  { s with calls := Function.update s.calls i (some { c with phase := p }) }

/-- The call gives up the lock. -/
def Sys.release (s : Sys) (i : ℕ) : Sys :=
  { s with lock := if s.lock = some i then none else s.lock }

/-- `baseline_save_record`, one operation at a time. -/
def step (s : Sys) : Act → Option Sys
  | .call i save =>
    if (s.calls i).isNone then
      some { s with calls := Function.update s.calls i (some ⟨save, .start⟩) }
    else none
  | .fail i => do
    let c ← s.calls i
    match c.phase with
    | .start => some (s.goto i c (.returned (-1)))
    | .loaded _ => some ((s.release i).goto i c (.returned (-1)))
    | .written _ => some ((s.release i).goto i c (.returned (-1)))
    | _ => none
  | .flock i => do
    let c ← s.calls i
    match c.phase, s.lock with
    | .start, none => some ({ s with lock := some i, order := s.order ++ [i] }.goto i c .locked)
    | _, _ => none
  | .load i fault => do
    let c ← s.calls i
    match c.phase with
    | .locked =>
      let kept := others (baselineLoadRecords fault s.file).1 c.save
      if kept.length = acBaselineMaxRecords then
        some ((s.release i).goto i c (.returned acBaselineSaveFull))
      else some (s.goto i c (.loaded kept))
    | _ => none
  | .write i => do
    let c ← s.calls i
    match c.phase with
    | .loaded kept => some (s.goto i c (.written (render (kept ++ [c.save.1]))))
    | _ => none
  | .writeLost i content => do
    let c ← s.calls i
    match c.phase with
    | .loaded _ => some (s.goto i c (.written content))
    | _ => none
  | .rename i => do
    let c ← s.calls i
    match c.phase with
    | .written tmp =>
      some ({ s with file := some tmp, applied := s.applied ++ [(i, c.save)] }.goto i c .renamed)
    | _ => none
  | .unlock i => do
    let c ← s.calls i
    match c.phase with
    | .renamed => some ((s.release i).goto i c (.returned 0))
    | _ => none
  | .kill i => do
    let c ← s.calls i
    match c.phase with
    | .returned _ => none
    | .killed => none
    | _ => some ((s.release i).goto i c .killed)

/-! ### What a step can do -/

/-- The steps of a call, one rule for each way to go on. -/
inductive Rule (s : Sys) : Act → Sys → Prop
  | call (i : ℕ) (save : Save) (hnone : s.calls i = none) :
      Rule s (.call i save) { s with calls := Function.update s.calls i (some ⟨save, .start⟩) }
  | failStart (i : ℕ) (c : Caller) (hc : s.calls i = some c) (hp : c.phase = .start) :
      Rule s (.fail i) (s.goto i c (.returned (-1)))
  | failLoaded (i : ℕ) (c : Caller) (kept : List AcBaselineRec) (hc : s.calls i = some c)
      (hp : c.phase = .loaded kept) : Rule s (.fail i) ((s.release i).goto i c (.returned (-1)))
  | failWritten (i : ℕ) (c : Caller) (tmp : Bytes) (hc : s.calls i = some c)
      (hp : c.phase = .written tmp) : Rule s (.fail i) ((s.release i).goto i c (.returned (-1)))
  | flock (i : ℕ) (c : Caller) (hc : s.calls i = some c) (hp : c.phase = .start)
      (hlock : s.lock = none) :
      Rule s (.flock i) ({ s with lock := some i, order := s.order ++ [i] }.goto i c .locked)
  | loadFull (i : ℕ) (fault : ReadFault) (c : Caller) (hc : s.calls i = some c)
      (hp : c.phase = .locked)
      (hfull : (others (baselineLoadRecords fault s.file).1 c.save).length = acBaselineMaxRecords) :
      Rule s (.load i fault) ((s.release i).goto i c (.returned acBaselineSaveFull))
  | load (i : ℕ) (fault : ReadFault) (c : Caller) (hc : s.calls i = some c)
      (hp : c.phase = .locked)
      (hroom : (others (baselineLoadRecords fault s.file).1 c.save).length ≠ acBaselineMaxRecords) :
      Rule s (.load i fault)
        (s.goto i c (.loaded (others (baselineLoadRecords fault s.file).1 c.save)))
  | write (i : ℕ) (c : Caller) (kept : List AcBaselineRec) (hc : s.calls i = some c)
      (hp : c.phase = .loaded kept) :
      Rule s (.write i) (s.goto i c (.written (render (kept ++ [c.save.1]))))
  | writeLost (i : ℕ) (content : Bytes) (c : Caller) (kept : List AcBaselineRec)
      (hc : s.calls i = some c) (hp : c.phase = .loaded kept) :
      Rule s (.writeLost i content) (s.goto i c (.written content))
  | rename (i : ℕ) (c : Caller) (tmp : Bytes) (hc : s.calls i = some c)
      (hp : c.phase = .written tmp) :
      Rule s (.rename i)
        ({ s with file := some tmp, applied := s.applied ++ [(i, c.save)] }.goto i c .renamed)
  | unlock (i : ℕ) (c : Caller) (hc : s.calls i = some c) (hp : c.phase = .renamed) :
      Rule s (.unlock i) ((s.release i).goto i c (.returned 0))
  | kill (i : ℕ) (c : Caller) (hc : s.calls i = some c) (hlive : c.phase ≠ .killed)
      (hcode : ∀ code, c.phase ≠ .returned code) :
      Rule s (.kill i) ((s.release i).goto i c .killed)

variable {s s' : Sys} {a : Act}

theorem rule_of_step (h : step s a = some s') : Rule s a s' := by
  cases a with
  | call i save =>
    simp only [step, Option.isNone_iff_eq_none] at h
    split_ifs at h with hnone
    cases h
    exact .call i save hnone
  | fail i =>
    obtain ⟨c, hc, h⟩ := Option.bind_eq_some_iff.mp h
    split at h
    · cases h
      exact .failStart i c hc ‹_›
    · cases h
      exact .failLoaded i c _ hc ‹_›
    · cases h
      exact .failWritten i c _ hc ‹_›
    · cases h
  | flock i =>
    obtain ⟨c, hc, h⟩ := Option.bind_eq_some_iff.mp h
    split at h
    · cases h
      exact .flock i c hc ‹_› ‹_›
    · cases h
  | load i fault =>
    obtain ⟨c, hc, h⟩ := Option.bind_eq_some_iff.mp h
    split at h
    · dsimp only at h
      split_ifs at h with hfull
      · cases h
        exact .loadFull i fault c hc ‹_› hfull
      · cases h
        exact .load i fault c hc ‹_› hfull
    · cases h
  | write i =>
    obtain ⟨c, hc, h⟩ := Option.bind_eq_some_iff.mp h
    split at h
    · cases h
      exact .write i c _ hc ‹_›
    · cases h
  | writeLost i content =>
    obtain ⟨c, hc, h⟩ := Option.bind_eq_some_iff.mp h
    split at h
    · cases h
      exact .writeLost i content c _ hc ‹_›
    · cases h
  | rename i =>
    obtain ⟨c, hc, h⟩ := Option.bind_eq_some_iff.mp h
    split at h
    · cases h
      exact .rename i c _ hc ‹_›
    · cases h
  | unlock i =>
    obtain ⟨c, hc, h⟩ := Option.bind_eq_some_iff.mp h
    split at h
    · cases h
      exact .unlock i c hc ‹_›
    · cases h
  | kill i =>
    obtain ⟨c, hc, h⟩ := Option.bind_eq_some_iff.mp h
    split at h
    · cases h
    · cases h
    · cases h
      exact .kill i c hc ‹_› ‹_›

/-! ### The keyed map -/

/-- The map that the renamed saves give, in their order. -/
def Sys.map (s : Sys) : UInt64 × UInt64 × UInt64 → Option Bytes :=
  s.applied.foldl (fun m a => Function.update m a.2.1.key (some a.2.1.hex)) fun _ => none

/-- The calls whose rename has succeeded. -/
def Sys.appliedIds (s : Sys) : List ℕ := s.applied.map Prod.fst

/-- What a `baseline_load_records` returns when its reads succeed. -/
def Sys.records (s : Sys) : List AcBaselineRec := (baselineLoadRecords .none s.file).1

/-- The records have different keys and are the entries of the map. -/
structure Keyed (recs : List AcBaselineRec) (m : UInt64 × UInt64 × UInt64 → Option Bytes) :
    Prop where
  valid : ∀ r ∈ recs, r.Valid
  nodup : (recs.map AcBaselineRec.key).Nodup
  length_le : recs.length ≤ acBaselineMaxRecords
  mem_iff : ∀ k h, m k = some h ↔ ∃ r ∈ recs, r.key = k ∧ r.hex = h

lemma Keyed.save {recs : List AcBaselineRec} {m : UInt64 × UInt64 × UInt64 → Option Bytes}
    (h : Keyed recs m) (save : Save) (hroom : (others recs save).length < acBaselineMaxRecords) :
    Keyed (others recs save ++ [save.1]) (Function.update m save.1.key (some save.1.hex)) := by
  have hothers : ∀ r, r ∈ others recs save ↔ r ∈ recs ∧ r.key ≠ save.1.key := by
    simp [others]
  constructor
  · intro r hr
    rcases List.mem_append.mp hr with hr | hr
    · exact h.valid r ((hothers r).mp hr).1
    · rw [List.mem_singleton.mp hr]
      exact save.2
  · rw [List.map_append, List.map_singleton]
    refine List.Nodup.append (h.nodup.sublist (List.filter_sublist.map _))
      (List.nodup_singleton _) ?_
    rw [List.disjoint_singleton]
    intro hmem
    obtain ⟨r, hr, hkey⟩ := List.mem_map.mp hmem
    exact ((hothers r).mp hr).2 hkey
  · rw [List.length_append, List.length_singleton]
    exact hroom
  · intro k hex
    by_cases hk : k = save.1.key
    · subst hk
      rw [Function.update_self]
      constructor
      · intro heq
        exact ⟨save.1, by simp, rfl, Option.some.inj heq⟩
      · rintro ⟨r, hr, hkey, rfl⟩
        rcases List.mem_append.mp hr with hr | hr
        · exact absurd hkey ((hothers r).mp hr).2
        · rw [List.mem_singleton.mp hr]
    · rw [Function.update_of_ne hk, h.mem_iff]
      constructor
      · rintro ⟨r, hr, rfl, rfl⟩
        exact ⟨r, List.mem_append_left _ ((hothers r).mpr ⟨hr, hk⟩), rfl, rfl⟩
      · rintro ⟨r, hr, rfl, rfl⟩
        rcases List.mem_append.mp hr with hr | hr
        · exact ⟨r, ((hothers r).mp hr).1, rfl, rfl⟩
        · exact absurd (congrArg _ (List.mem_singleton.mp hr)) hk

/-! ### The invariant -/

/-- A call that has the lock and has not renamed its file yet. It is the last in the order. -/
structure Sys.Holds (s : Sys) (i : ℕ) : Prop where
  lock : s.lock = some i
  notApplied : i ∉ s.appliedIds
  last : (s.appliedIds ++ [i]).Sublist s.order

/-- What is true of a call in each of its phases. -/
def Sys.CallOk (s : Sys) (i : ℕ) (c : Caller) : Prop :=
  match c.phase with
  | .start => i ∉ s.appliedIds
  | .locked => s.Holds i
  | .loaded kept =>
    s.Holds i ∧ kept = others s.records c.save ∧ kept.length < acBaselineMaxRecords
  | .written tmp =>
    s.Holds i ∧ tmp = render (others s.records c.save ++ [c.save.1]) ∧
      (others s.records c.save).length < acBaselineMaxRecords
  | .renamed => s.lock = some i ∧ i ∈ s.appliedIds
  | .returned code => code = 0 ↔ i ∈ s.appliedIds
  | .killed => True

structure Sys.Inv (s : Sys) : Prop where
  keyed : Keyed s.records s.map
  calls : ∀ i c, s.calls i = some c → s.CallOk i c
  fresh : ∀ i, s.calls i = none → i ∉ s.appliedIds
  inOrder : s.appliedIds.Sublist s.order

/-- The lock is left to those who have it, and nobody else renames. -/
lemma Sys.CallOk.frame {i : ℕ} {c : Caller} (h : s.CallOk i c) (hfile : s'.file = s.file)
    (happlied : s'.applied = s.applied) (horder : s.order.Sublist s'.order)
    (hlock : s.lock = some i → s'.lock = some i) : s'.CallOk i c := by
  have hids : s'.appliedIds = s.appliedIds := by rw [Sys.appliedIds, Sys.appliedIds, happlied]
  have hrecs : s'.records = s.records := by rw [Sys.records, Sys.records, hfile]
  have hholds : s.Holds i → s'.Holds i := fun h =>
    ⟨hlock h.lock, hids ▸ h.notApplied, hids ▸ h.last.trans horder⟩
  unfold Sys.CallOk at h ⊢
  rw [hids, hrecs]
  cases hp : c.phase with
  | start => simpa [hp] using h
  | locked =>
    rw [hp] at h
    exact hholds h
  | loaded kept =>
    rw [hp] at h
    exact ⟨hholds h.1, h.2⟩
  | written tmp =>
    rw [hp] at h
    exact ⟨hholds h.1, h.2⟩
  | renamed =>
    rw [hp] at h
    exact ⟨hlock h.1, h.2⟩
  | returned code => simpa [hp] using h
  | killed => trivial

namespace Sys.Inv

/-- A step of one call that does not rename. -/
lemma move {i : ℕ} {c : Caller} {p : Phase} (h : s.Inv) (hc : s.calls i = some c)
    (hcalls : s'.calls = Function.update s.calls i (some { c with phase := p }))
    (hfile : s'.file = s.file) (happlied : s'.applied = s.applied)
    (horder : s.order.Sublist s'.order)
    (hlock : ∀ j, j ≠ i → s.lock = some j → s'.lock = some j)
    (hok : s'.CallOk i { c with phase := p }) : s'.Inv := by
  have hids : s'.appliedIds = s.appliedIds := by rw [Sys.appliedIds, Sys.appliedIds, happlied]
  have hrecs : s'.records = s.records := by rw [Sys.records, Sys.records, hfile]
  have hmap : s'.map = s.map := by rw [Sys.map, Sys.map, happlied]
  constructor
  · rw [hrecs, hmap]
    exact h.keyed
  · rw [hcalls]
    refine PartialMap.forall_update (fun j d hj hd => ?_) fun d hd => ?_
    · exact (h.calls j d hd).frame hfile happlied horder (hlock j hj)
    · cases hd
      exact hok
  · intro j hj
    rw [hids]
    refine h.fresh j ?_
    rw [hcalls] at hj
    by_cases hji : j = i
    · subst hji
      rw [Function.update_self] at hj
      cases hj
    · rwa [Function.update_of_ne hji] at hj
  · rw [hids]
    exact h.inOrder.trans horder

lemma release_lock {i j : ℕ} (hj : j ≠ i) (hlock : s.lock = some j) :
    (s.release i).lock = some j := by
  rw [Sys.release, if_neg (by simp [hlock, hj])]
  exact hlock

/-- A call that renames its file makes its save the newest of the map. -/
lemma rename {i : ℕ} {c : Caller} {tmp : Bytes} (h : s.Inv) (hc : s.calls i = some c)
    (hp : c.phase = .written tmp) :
    ({ s with file := some tmp, applied := s.applied ++ [(i, c.save)] }.goto i c .renamed).Inv := by
  have hok := h.calls i c hc
  rw [Sys.CallOk, hp] at hok
  obtain ⟨hholds, rfl, hroom⟩ := hok
  set s' := { s with
    file := some (render (others s.records c.save ++ [c.save.1]))
    applied := s.applied ++ [(i, c.save)] }.goto i c .renamed with hs'
  have hkeyed := h.keyed.save c.save hroom
  have hids : s'.appliedIds = s.appliedIds ++ [i] := List.map_append
  have hrecs : s'.records = others s.records c.save ++ [c.save.1] :=
    congrArg Prod.fst (baselineLoadRecords_render hkeyed.valid hkeyed.length_le)
  have hmap : s'.map = Function.update s.map c.save.1.key (some c.save.1.hex) := by
    rw [Sys.map, Sys.map, hs']
    exact List.foldl_append
  constructor
  · rw [hrecs, hmap]
    exact hkeyed
  · refine PartialMap.forall_update (fun j d hj hd => ?_) fun d hd => ?_
    · -- nobody else has the lock
      have hother := h.calls j d hd
      have hnot : ¬ s.lock = some j := fun hl => hj (Option.some.inj (hl.symm.trans hholds.lock))
      unfold Sys.CallOk at hother ⊢
      rw [hids]
      cases hd : d.phase with
      | start => simpa [hd, hj] using hother
      | locked =>
        rw [hd] at hother
        exact absurd hother.lock hnot
      | loaded kept =>
        rw [hd] at hother
        exact absurd hother.1.lock hnot
      | written tmp =>
        rw [hd] at hother
        exact absurd hother.1.lock hnot
      | renamed =>
        rw [hd] at hother
        exact absurd hother.1 hnot
      | returned code => simpa [hd, hj] using hother
      | killed => trivial
    · cases hd
      refine ⟨hholds.lock, ?_⟩
      rw [hids]
      simp
  · intro j hj
    by_cases hji : j = i
    · subst hji
      simp [hs', Sys.goto] at hj
    · rw [hids]
      have hnone : s.calls j = none := by simpa [hs', Sys.goto, hji] using hj
      simpa [hji] using h.fresh j hnone
  · rw [hids]
    exact hholds.last

end Sys.Inv

/-- A step that loses nothing on the way: a load reads all of the file that is there, and a write
that fails is noticed. -/
def Sys.lossless (s : Sys) : Act → Bool
  | .load _ fault => readPieces fault s.file = readPieces .none s.file
  | .writeLost _ _ => false
  | _ => true

lemma records_of_lossless {i : ℕ} {fault : ReadFault} (h : s.lossless (.load i fault)) :
    (baselineLoadRecords fault s.file).1 = s.records := by
  have hpieces : readPieces fault s.file = readPieces .none s.file := of_decide_eq_true h
  rw [Sys.records, baselineLoadRecords, baselineLoadRecords, hpieces]

lemma Keyed.length_others_le {recs : List AcBaselineRec}
    {m : UInt64 × UInt64 × UInt64 → Option Bytes} (h : Keyed recs m) (save : Save) :
    (others recs save).length ≤ acBaselineMaxRecords :=
  (List.length_filter_le _ _).trans h.length_le

namespace Sys.Inv

lemma init : Baseline.init.Inv := by
  constructor
  · exact ⟨nofun, .nil, Nat.zero_le _, fun k h => ⟨nofun, nofun⟩⟩
  · exact nofun
  · exact fun _ _ => nofun
  · exact .slnil

lemma step (h : s.Inv) (hok : s.lossless a) (hstep : Baseline.step s a = some s') : s'.Inv := by
  cases rule_of_step hstep with
  | call i save hnone =>
    refine ⟨h.keyed, ?_, fun j hj => ?_, h.inOrder⟩
    · refine PartialMap.forall_update (fun j d _ hd => ?_) fun d hd => ?_
      · exact (h.calls j d hd).frame rfl rfl (List.Sublist.refl _) id
      · cases hd
        exact h.fresh i hnone
    · by_cases hji : j = i
      · subst hji
        exact h.fresh j hnone
      · exact h.fresh j (by simpa [hji] using hj)
  | failStart i c hc hp =>
    have hold := h.calls i c hc
    rw [Sys.CallOk, hp] at hold
    refine h.move hc rfl rfl rfl (List.Sublist.refl _) (fun _ _ => id) ?_
    exact iff_of_false (by decide) hold
  | failLoaded i c kept hc hp =>
    have hold := h.calls i c hc
    rw [Sys.CallOk, hp] at hold
    refine h.move hc rfl rfl rfl (List.Sublist.refl _) (fun j hj => release_lock hj) ?_
    exact iff_of_false (by decide) hold.1.notApplied
  | failWritten i c tmp hc hp =>
    have hold := h.calls i c hc
    rw [Sys.CallOk, hp] at hold
    refine h.move hc rfl rfl rfl (List.Sublist.refl _) (fun j hj => release_lock hj) ?_
    exact iff_of_false (by decide) hold.1.notApplied
  | flock i c hc hp hlock =>
    have hold := h.calls i c hc
    rw [Sys.CallOk, hp] at hold
    refine h.move hc rfl rfl rfl (List.sublist_append_left _ _) (fun j _ hj => ?_) ?_
    · rw [hlock] at hj
      cases hj
    · exact ⟨rfl, hold, h.inOrder.append_right _⟩
  | loadFull i fault c hc hp hfull =>
    have hold := h.calls i c hc
    rw [Sys.CallOk, hp] at hold
    refine h.move hc rfl rfl rfl (List.Sublist.refl _) (fun j hj => release_lock hj) ?_
    exact iff_of_false (by decide) hold.notApplied
  | load i fault c hc hp hroom =>
    have hold := h.calls i c hc
    rw [Sys.CallOk, hp] at hold
    rw [records_of_lossless hok] at hroom ⊢
    refine h.move hc rfl rfl rfl (List.Sublist.refl _) (fun _ _ => id) ?_
    exact ⟨⟨hold.lock, hold.notApplied, hold.last⟩, rfl,
      lt_of_le_of_ne (h.keyed.length_others_le c.save) hroom⟩
  | write i c kept hc hp =>
    have hold := h.calls i c hc
    rw [Sys.CallOk, hp] at hold
    obtain ⟨hholds, rfl, hroom⟩ := hold
    refine h.move hc rfl rfl rfl (List.Sublist.refl _) (fun _ _ => id) ?_
    exact ⟨⟨hholds.lock, hholds.notApplied, hholds.last⟩, rfl, hroom⟩
  | writeLost i content c kept hc hp => cases hok
  | rename i c tmp hc hp => exact h.rename hc hp
  | unlock i c hc hp =>
    have hold := h.calls i c hc
    rw [Sys.CallOk, hp] at hold
    refine h.move hc rfl rfl rfl (List.Sublist.refl _) (fun j hj => release_lock hj) ?_
    exact iff_of_true rfl hold.2
  | kill i c hc hlive hcode =>
    exact h.move hc rfl rfl rfl (List.Sublist.refl _) (fun j hj => release_lock hj) trivial

lemma of_run {as : List Act}
    (hrun : run (restrict Sys.lossless Baseline.step) Baseline.init as = some s) : s.Inv :=
  run_invariant (fun _ _ _ hs hstep =>
    hs.step (restrict_eq_some.mp hstep).1 (restrict_eq_some.mp hstep).2) init hrun

end Sys.Inv

/-! ### The result -/

/-- In every run that loses nothing, the file holds the map of the renamed saves in the order of the
lock, with at most `AC_BASELINE_MAX_RECORDS` entries; a save that returns nonzero is not among
them; and a save with a new key returns `AC_BASELINE_SAVE_FULL` when the map is full. -/
theorem records_of_run (as : List Act)
    (hrun : run (restrict Sys.lossless step) init as = some s) :
    Keyed s.records s.map ∧ s.appliedIds.Sublist s.order ∧
      (∀ i c code, s.calls i = some c → c.phase = .returned code → code ≠ 0 →
        i ∉ s.appliedIds) ∧
      ∀ i c fault s', s.calls i = some c → s.records.length = acBaselineMaxRecords →
        c.save.1.key ∉ s.records.map AcBaselineRec.key →
        restrict Sys.lossless step s (.load i fault) = some s' →
        s'.calls i = some { c with phase := .returned acBaselineSaveFull } ∧ s'.map = s.map := by
  have h : s.Inv := .of_run hrun
  refine ⟨h.keyed, h.inOrder, ?_, ?_⟩
  · intro i c code hc hp hcode happlied
    have hok := h.calls i c hc
    rw [Sys.CallOk, hp] at hok
    exact hcode (hok.mpr happlied)
  · intro i c fault s' hc hfull hnew hstep
    obtain ⟨hok, hstep⟩ := restrict_eq_some.mp hstep
    have hothers : others s.records c.save = s.records := by
      refine List.filter_eq_self.mpr fun r hr => ?_
      simpa using fun hkey : r.key = c.save.1.key => hnew (hkey ▸ List.mem_map_of_mem hr)
    cases rule_of_step hstep with
    | loadFull _ _ c' hc' hp hfull' =>
      cases hc.symm.trans hc'
      exact ⟨Function.update_self _ _ _, rfl⟩
    | load _ _ c' hc' hp hroom =>
      cases hc.symm.trans hc'
      rw [records_of_lossless hok, hothers] at hroom
      exact absurd hfull hroom

/-- The save of a segment of inode 7 at the given offset. -/
def segmentSave (offset : UInt64) : Save :=
  ⟨⟨7, offset, 16, [97]⟩, by simp [AcBaselineRec.Valid, isspace]⟩

/-- Two saves one after the other; in the second, the reads of the existing file go as `fault`
says and every other operation succeeds. -/
def twoSaves (fault : ReadFault) : List Act :=
  [.call 0 (segmentSave 0), .flock 0, .load 0 .none, .write 0, .rename 0, .unlock 0,
    .call 1 (segmentSave 16), .flock 1, .load 1 fault, .write 1, .rename 1, .unlock 1]

lemma twoSaves_runs : (run (restrict Sys.lossless step) init (twoSaves .none)).isSome = true := by
  decide +kernel

/-- Two saves that read and write all there is are both in the file. -/
theorem records_of_run_twoSaves :
    ∃ s, run (restrict Sys.lossless step) init (twoSaves .none) = some s ∧
      s.records = [(segmentSave 0).1, (segmentSave 16).1] ∧ Keyed s.records s.map := by
  have hrun := (Option.some_get twoSaves_runs).symm
  exact ⟨_, hrun, by decide +kernel, (records_of_run _ hrun).1⟩

lemma twoSaves_opening_runs : (run step init (twoSaves .opening)).isSome = true := by
  decide +kernel

/-- When the second save cannot open the file, it takes it for empty: it returns 0, its rename has
succeeded, and the record of the first save is gone. -/
theorem records_lost :
    ∃ s, run step init (twoSaves .opening) = some s ∧
      (s.calls 1).map Caller.phase = some (.returned 0) ∧
      s.records = [(segmentSave 16).1] ∧ s.map (segmentSave 0).1.key = some [97] ∧
      ¬ Keyed s.records s.map := by
  have hrun := (Option.some_get twoSaves_opening_runs).symm
  refine ⟨_, hrun, by decide +kernel, by decide +kernel, by decide +kernel, fun hkeyed => ?_⟩
  have hgone := (hkeyed.mem_iff (segmentSave 0).1.key [97]).mp (by decide +kernel)
  revert hgone
  decide +kernel

end Anticheat.Baseline
