import Anticheat.Baseline.Runs
import Anticheat.Lib.GapFree
import Mathlib.Data.List.Forall2

/-!
# Whether an address is in a library load

`render_addr_in_load` walks a process's mappings once and decides whether an address belongs to one
load of a file. The identity of a mapping's file may be unreadable and the list of mappings may be
cut off, so its answers are three-valued: it says yes or no only where no reading of the unknown
identities, and no continuation of a cut-off list, could say otherwise.
-/

namespace Anticheat.Render

open Baseline GapFree

variable {F : Type*}

/-! ### The code -/

/-- The values `1`, `0` and `-1` of the daemon's three-valued answers. -/
inductive Tri
  | yes
  | no
  | unknown
  deriving DecidableEq, Repr

/-- `struct ac_map_id` -/
structure AcMapId where
  dev : UInt64
  ino : UInt64
  deriving DecidableEq, Repr

/-- What `map_file_identity` returns: the identity, `-2` or `-1`. -/
inductive MapFileIdentity (F : Type*)
  | regular (id : F)
  | notRegular
  | unreadable
  deriving DecidableEq, Repr

/-- An entry of the snapshot with what `map_file_identity` says of its range. -/
structure Scanned (F : Type*) where
  vi : AcVmaInfo
  idr : MapFileIdentity F
  deriving DecidableEq, Repr

/-- `same_file` -/
def Scanned.sameFile [DecidableEq F] (v : Scanned F) (id : F) : Tri :=
  if v.vi.isFile then
    match v.idr with
    | .regular vid => if vid = id then .yes else .no
    | .notRegular => .no
    | .unreadable => .unknown
  else .no

/-- The variables of the loop in `render_addr_in_load`. -/
structure LoadScan where
  prevEnd : UInt64 := 0
  leftOk : Tri := .no
  rightUnknown : Bool := false
  inHole : Bool := false
  deriving DecidableEq, Repr

/-- `left_ok` after a mapping below the address. -/
def LoadScan.leftOkAfter (s : LoadScan) (start : UInt64) (sameFile : Tri) : Tri :=
  let leftOk := if start ≠ s.prevEnd then .no else s.leftOk
  match sameFile with
  | .yes => .yes
  | .unknown => if leftOk = .no then .unknown else leftOk
  | .no => leftOk

/-- The body of the loop in `render_addr_in_load`: it leaves the loop with an answer or goes on. -/
def LoadScan.step [DecidableEq F] (id : F) (delta addr : UInt64) (s : LoadScan) (v : Scanned F) :
    Except Tri LoadScan :=
  let sameFile := v.sameFile id
  if s.inHole then
    if v.vi.start ≠ s.prevEnd then .error (if s.rightUnknown then .unknown else .no)
    else if sameFile = .yes then .error .yes
    else .ok { s with
      rightUnknown := s.rightUnknown || sameFile = .unknown
      prevEnd := v.vi.stop }
  else if v.vi.stop ≤ addr then
    .ok { s with leftOk := s.leftOkAfter v.vi.start sameFile, prevEnd := v.vi.stop }
  else if addr < v.vi.start then .error .no
  else if sameFile ≠ .no ∧ v.vi.start - v.vi.offset = delta then
    .error (if sameFile = .yes then .yes else .unknown)
  else if v.vi.start ≠ s.prevEnd ∨ s.leftOk = .no then .error .no
  else if s.leftOk = .unknown then .error .unknown
  else .ok { s with inHole := true, prevEnd := v.vi.stop }

/-- The loop of `render_addr_in_load`; an entry is `none` if `AC_IOCTL_SCAN_GET` fails for it. -/
def LoadScan.loop [DecidableEq F] (id : F) (delta addr : UInt64) :
    LoadScan → List (Option (Scanned F)) → Except Tri LoadScan
  | s, [] => .ok s
  | _, none :: _ => .error .unknown
  | s, some v :: vs =>
    match s.step id delta addr v with
    | .error ret => .error ret
    | .ok s => s.loop id delta addr vs

/-- What `AC_IOCTL_SCAN_BEGIN` and the calls of `AC_IOCTL_SCAN_GET` after it give. -/
structure Scan (V : Type*) where
  vmas : List (Option V)
  truncated : Bool
  deriving DecidableEq, Repr

/-- `complete` -/
def Scan.complete {V : Type*} (b : Scan V) : Bool := !b.truncated && b.vmas.length ≤ acMaxVmas

/-- What `render_addr_in_load` returns after the loop. -/
def LoadScan.ret (complete : Bool) : Except Tri LoadScan → Tri
  | .error ret => ret
  -- the loop ran off the end undecided
  | .ok s => if complete && !s.rightUnknown then .no else .unknown

/-- `render_addr_in_load`, for a snapshot that is `none` if `AC_IOCTL_SCAN_BEGIN` fails. -/
def renderAddrInLoad [DecidableEq F] (scan : Option (Scan (Scanned F))) (id : F)
    (delta addr : UInt64) : Tri :=
  match scan with
  | none => .unknown
  | some b =>
    LoadScan.ret b.complete (LoadScan.loop id delta addr {} (b.vmas.take acMaxVmas))

/-! ### What the answers mean -/

/-- A mapping and the regular file it maps, if it maps one. -/
structure Mapped (F : Type*) where
  vi : AcVmaInfo
  file : Option F

namespace Mapped

def start (w : Mapped F) : UInt64 := w.vi.start

def stop (w : Mapped F) : UInt64 := w.vi.stop

def Holds (w : Mapped F) (addr : UInt64) : Prop := w.start ≤ addr ∧ addr < w.stop

end Mapped

/-- Mappings in address order, none of them empty and no two overlapping. -/
structure Sorted (l : List AcVmaInfo) : Prop where
  disjoint : l.Pairwise fun v w => v.stop ≤ w.start
  lt : ∀ v ∈ l, v.start < v.stop

/-- The mapping that holds `addr` maps the file with that delta, or lies in a gap-free run of
mappings that has mappings of the file on both sides. -/
def InLoad (id : F) (delta addr : UInt64) (l : List (Mapped F)) : Prop :=
  ∃ left w right, l = left ++ w :: right ∧ w.Holds addr ∧
    (w.file = some id ∧ w.start - w.vi.offset = delta ∨
      Between Mapped.start Mapped.stop (fun x => x.file = some id) left w right)

/-- The identity of the mapping's file is known: `none` for a mapping of no regular file. -/
def Scanned.identity (v : Scanned F) : Option (Option F) :=
  if v.vi.isFile then
    match v.idr with
    | .regular vid => some (some vid)
    | .notRegular => some none
    | .unreadable => none
  else some none

/-- The mapping `w` is the one the entry `v` is about, with any file if the identity is unknown. -/
structure Scanned.Agrees (v : Scanned F) (w : Mapped F) : Prop where
  vi : w.vi = v.vi
  file : ∀ i ∈ v.identity, w.file = i

/-- An address space that the entries may be the snapshot of: any identity for the unknown ones,
and any mappings after a list that is not complete. -/
inductive Completion (complete : Bool) : List (Scanned F) → List (Mapped F) → Prop
  | nil {l} : (complete = true → l = []) → Completion complete [] l
  | cons {v w vs ws} : v.Agrees w → Completion complete vs ws →
      Completion complete (v :: vs) (w :: ws)

/-- The answer is right about `P`, and is given whenever everything is `known`. -/
def Tri.Decides (known P : Prop) : Tri → Prop
  | .yes => P
  | .no => ¬ P
  | .unknown => ¬ known

/-! ### One mapping -/

theorem Scanned.sameFile_eq [DecidableEq F] (v : Scanned F) (id : F) :
    v.sameFile id = match v.identity with
      | some i => if i = some id then .yes else .no
      | none => .unknown := by
  unfold sameFile identity
  split
  · cases v.idr <;> simp
  · simp

theorem Scanned.Agrees.decides [DecidableEq F] {v : Scanned F} {w : Mapped F} {known : Prop}
    (h : v.Agrees w) (hk : known → v.identity.isSome) (id : F) :
    (v.sameFile id).Decides known (w.file = some id) := by
  rw [sameFile_eq]
  cases hv : v.identity with
  | none => exact fun hkn => by simpa [hv] using hk hkn
  | some i =>
    have hw := h.file i hv
    dsimp only
    split_ifs with hi
    · exact hw.trans hi
    · exact fun hf => hi (hw.symm.trans hf)

section Agrees

variable {v : Scanned F} {w : Mapped F}

theorem Scanned.Agrees.start (h : v.Agrees w) : v.vi.start = w.start :=
  (congrArg AcVmaInfo.start h.vi).symm

theorem Scanned.Agrees.stop (h : v.Agrees w) : v.vi.stop = w.stop :=
  (congrArg AcVmaInfo.stop h.vi).symm

theorem Scanned.Agrees.offset (h : v.Agrees w) : v.vi.offset = w.vi.offset :=
  (congrArg AcVmaInfo.offset h.vi).symm

end Agrees

/-! ### The mapping that holds the address -/

section Holds

variable {addr : UInt64} {left right l : List (Mapped F)} {w : Mapped F}

theorem not_inLoad_of_below (id : F) (delta : UInt64) (h : ∀ x ∈ l, x.stop ≤ addr) :
    ¬ InLoad id delta addr l := by
  rintro ⟨left, w, right, rfl, hw, -⟩
  exact absurd hw.2 (UInt64.not_lt.2 (h w (by simp)))

/-- In a sorted list the first mapping that ends above the address is the only one to hold it. -/
theorem inLoad_append_iff (id : F) (delta : UInt64)
    (hs : Sorted ((left ++ w :: right).map Mapped.vi))
    (hleft : ∀ x ∈ left, x.stop ≤ addr) (hw : addr < w.stop) :
    InLoad id delta addr (left ++ w :: right) ↔ w.start ≤ addr ∧
      (w.file = some id ∧ w.start - w.vi.offset = delta ∨
        Between Mapped.start Mapped.stop (fun x => x.file = some id) left w right) := by
  constructor
  · rintro ⟨left', w', right', heq, hw', hload⟩
    have hright : ∀ x ∈ right, w.stop ≤ x.start :=
      (List.pairwise_cons.1 (List.pairwise_append.1 (List.pairwise_map.1 hs.disjoint)).2.1).1
    rcases List.append_eq_append_iff.1 heq with ⟨m, rfl, hm⟩ | ⟨m, rfl, hm⟩
    · cases m with
      | nil =>
        obtain ⟨rfl, rfl⟩ : w = w' ∧ right = right' := by simpa using hm
        rw [List.append_nil] at hload
        exact ⟨hw'.1, hload⟩
      | cons x m =>
        -- the mapping comes after `w`, so it starts above the address
        obtain ⟨rfl, rfl⟩ : w = x ∧ right = m ++ w' :: right' := by simpa using hm
        have := hright w' (by simp)
        exact absurd (UInt64.lt_of_lt_of_le hw (UInt64.le_trans this hw'.1))
          (UInt64.lt_irrefl addr)
    · cases m with
      | nil =>
        obtain ⟨rfl, rfl⟩ : w' = w ∧ right' = right := by simpa using hm
        rw [List.append_nil]
        exact ⟨hw'.1, hload⟩
      | cons x m =>
        -- the mapping comes before `w`, so it ends below the address
        obtain ⟨rfl, rfl⟩ : w' = x ∧ right' = m ++ w :: right := by simpa using hm
        exact absurd hw'.2 (UInt64.not_lt.2 (hleft w' (by simp)))
  · rintro ⟨hstart, hload⟩
    exact ⟨left, w, right, rfl, ⟨hstart, hw⟩, hload⟩

end Holds

/-! ### The loop -/

section Loop

variable {id : F} {delta addr : UInt64} {known : Prop}

/-- A mapping of the file is reached from `e` without a gap, down the reversed list. -/
abbrev Down (id : F) (e : UInt64) (l : List (Mapped F)) : Prop :=
  Reaches Mapped.stop Mapped.start (fun x => x.file = some id) e l

/-- A mapping of the file is reached from `e` without a gap, up the list. -/
abbrev Up (id : F) (e : UInt64) (l : List (Mapped F)) : Prop :=
  Reaches Mapped.start Mapped.stop (fun x => x.file = some id) e l

/-- What the variables say of the mappings the loop has left `before` it and those `after` it: on
the way to the address, and in a hole, walking up. -/
inductive LoadInv (id : F) (delta addr : UInt64) (known : Prop) (before after : List (Mapped F)) :
    LoadScan → Prop
  | left (s : LoadScan) (hole : s.inHole = false) (right : s.rightUnknown = false)
      (below : ∀ w ∈ before, w.stop ≤ addr)
      (last : ∀ w ∈ before.reverse.head?, w.stop = s.prevEnd)
      (leftOk : s.leftOk.Decides known (Down id s.prevEnd before.reverse)) :
      LoadInv id delta addr known before after s
  | hole (s : LoadScan) (hole : s.inHole = true)
      (yes : Up id s.prevEnd after → InLoad id delta addr (before ++ after))
      (no : s.rightUnknown = false → InLoad id delta addr (before ++ after) →
        Up id s.prevEnd after)
      (right : s.rightUnknown = true → ¬ known) :
      LoadInv id delta addr known before after s

theorem LoadInv.init (after : List (Mapped F)) : LoadInv id delta addr known [] after {} :=
  .left _ rfl rfl (by simp) (by simp) not_reaches_nil

variable {before after : List (Mapped F)} {s : LoadScan}

/-- Running off the end of the list decides nothing unless it is complete and has no unknown. -/
theorem LoadInv.ret_ok {complete : Bool} (hi : LoadInv id delta addr known before after s)
    (hafter : complete = true → after = []) (hk : known → complete = true) :
    (LoadScan.ret complete (.ok s)).Decides known (InLoad id delta addr (before ++ after)) := by
  unfold LoadScan.ret
  dsimp only
  split_ifs with hend
  · obtain ⟨hcomplete, hru⟩ := Bool.and_eq_true_iff.1 hend
    rw [Bool.not_eq_true'] at hru
    cases hafter hcomplete
    cases hi with
    | left _ _ below =>
      rw [List.append_nil]
      exact not_inLoad_of_below id delta below
    | hole _ _ no => exact fun hload => no hru hload
  · intro hkn
    cases hi with
    | left _ right => exact hend (by rw [hk hkn, right]; rfl)
    | hole _ _ _ right =>
      have hru : s.rightUnknown = false := by
        rw [← Bool.not_eq_true]
        exact fun hru => right hru hkn
      exact hend (by rw [hk hkn, hru]; rfl)

variable [DecidableEq F] {s' : LoadScan} {v : Scanned F} {w : Mapped F} {r : Tri}

/-- The run that ends with `w` reaches down to the file through `w` itself or what is below it. -/
theorem decides_leftOkAfter (hv : v.Agrees w) (hk : known → v.identity.isSome)
    (last : ∀ w ∈ before.reverse.head?, w.stop = s.prevEnd)
    (leftOk : s.leftOk.Decides known (Down id s.prevEnd before.reverse)) :
    (s.leftOkAfter w.start (v.sameFile id)).Decides known
      (Down id w.stop (before ++ [w]).reverse) := by
  have hsame := hv.decides hk id
  -- what is below `w`, seen from its start
  have hbelow : (if w.start ≠ s.prevEnd then Tri.no else s.leftOk).Decides known
      (Down id w.start before.reverse) := by
    split_ifs with hgap
    · exact not_reaches_of_ne fun x hx h => hgap (by rw [← h, last x hx])
    · rw [not_not.1 hgap]
      exact leftOk
  rw [List.reverse_append, List.reverse_singleton, List.singleton_append, Down, reaches_cons]
  unfold LoadScan.leftOkAfter
  dsimp only
  generalize (if w.start ≠ s.prevEnd then Tri.no else s.leftOk) = below at hbelow
  cases hf : v.sameFile id <;> rw [hf] at hsame <;> cases below
  case yes.yes | yes.no | yes.unknown => exact ⟨rfl, .inl hsame⟩
  case no.yes | unknown.yes => exact ⟨rfl, .inr hbelow⟩
  case no.no => exact fun h => h.2.elim hsame hbelow
  case unknown.no => exact hsame
  case no.unknown | unknown.unknown => exact hbelow

/-- A mapping the code does not take for the library's own text is not. -/
theorem Scanned.Agrees.not_own (hv : v.Agrees w)
    (h : ¬ (v.sameFile id ≠ .no ∧ w.start - w.vi.offset = delta)) :
    ¬ (w.file = some id ∧ w.start - w.vi.offset = delta) := by
  rintro ⟨hfile, hdelta⟩
  refine h ⟨fun hf => ?_, hdelta⟩
  have hsame := hv.decides False.elim id
  rw [hf] at hsame
  exact hsame hfile

/-- A step that goes on keeps the invariant, with `w` now behind it. -/
theorem LoadInv.step_ok (hi : LoadInv id delta addr known before (w :: after) s)
    (hs : Sorted ((before ++ w :: after).map Mapped.vi)) (hv : v.Agrees w)
    (hk : known → v.identity.isSome) (h : s.step id delta addr v = .ok s') :
    LoadInv id delta addr known (before ++ [w]) after s' := by
  have hcons : before ++ [w] ++ after = before ++ w :: after := by simp
  rw [LoadScan.step, hv.start, hv.stop, hv.offset] at h
  cases hi with
  | left hole right below last leftOk =>
    simp only [hole, Bool.false_eq_true, if_false] at h
    split_ifs at h with hle hlt hown hgap hunk
    · -- `w` is below the address
      cases h
      refine .left _ rfl right (fun x hx => ?_) (by simp) (decides_leftOkAfter hv hk last leftOk)
      rcases List.mem_append.1 hx with hx | hx
      · exact below x hx
      · rwa [List.mem_singleton.1 hx]
    · -- `w` holds the address, and below it the run reaches the file
      cases h
      obtain ⟨hprev, hno⟩ := not_or.1 hgap
      have hdown : Down id w.start before.reverse := by
        rw [not_not.1 hprev]
        cases hl : s.leftOk with
        | yes => rw [hl] at leftOk; exact leftOk
        | no => exact absurd hl hno
        | unknown => exact absurd hl hunk
      have hiff : InLoad id delta addr (before ++ [w] ++ after) ↔
          Up id w.stop after := by
        rw [hcons, inLoad_append_iff id delta hs below (UInt64.not_le.1 hle), between_iff]
        simp only [UInt64.not_lt.1 hlt, hv.not_own hown, hdown, true_and, false_or]
      exact .hole _ rfl hiff.2 (fun _ => hiff.1) (by simp [right])
  | hole hole yes no right =>
    have hsame := hv.decides hk id
    simp only [hole, if_true] at h
    split_ifs at h with hgap hf
    cases h
    refine .hole _ rfl (fun hr => ?_) (fun hru hload => ?_) fun hru => ?_
    · rw [hcons]
      exact yes ⟨not_not.1 hgap, .inr hr⟩
    · rw [hcons] at hload
      obtain ⟨hru, hknown⟩ := Bool.or_eq_false_iff.1 hru
      obtain ⟨-, hw | hr⟩ := no hru hload
      · cases hsf : v.sameFile id with
        | yes => exact absurd hsf hf
        | no => rw [hsf] at hsame; exact absurd hw hsame
        | unknown => exact absurd hsf (of_decide_eq_false hknown)
      · exact hr
    · rcases Bool.or_eq_true_iff.1 hru with hru | hunk
      · exact right hru
      · rw [of_decide_eq_true hunk] at hsame
        exact hsame

/-- A step that leaves the loop does so with an answer that is right. -/
theorem LoadInv.step_error (hi : LoadInv id delta addr known before (w :: after) s)
    (hs : Sorted ((before ++ w :: after).map Mapped.vi)) (hv : v.Agrees w)
    (hk : known → v.identity.isSome) (h : s.step id delta addr v = .error r) :
    r.Decides known (InLoad id delta addr (before ++ w :: after)) := by
  have hsame := hv.decides hk id
  rw [LoadScan.step, hv.start, hv.stop, hv.offset] at h
  cases hi with
  | left hole right below last leftOk =>
    simp only [hole, Bool.false_eq_true, if_false] at h
    split_ifs at h with hle hlt hown hyes hgap hunk <;> cases h <;>
      have hiff := inLoad_append_iff id delta hs below (UInt64.not_le.1 hle)
    · -- the address is not mapped
      exact fun hload => absurd (hiff.1 hload).1 (UInt64.not_le.2 hlt)
    · rw [hyes] at hsame
      exact hiff.2 ⟨UInt64.not_lt.1 hlt, .inl ⟨hsame, hown.2⟩⟩
    · cases hf : v.sameFile id with
      | yes => exact absurd hf hyes
      | no => exact absurd hf hown.1
      | unknown => rw [hf] at hsame; exact hsame
    · intro hload
      rcases (hiff.1 hload).2 with hself | hbetween
      · exact hv.not_own hown hself
      · have hdown := (between_iff.1 hbetween).1
        by_cases hprev : w.start = s.prevEnd
        · rw [hgap.resolve_left (not_not.2 hprev)] at leftOk
          exact leftOk (hprev ▸ hdown)
        · exact not_reaches_of_ne (fun x hx h => hprev (by rw [← h, last x hx])) hdown
    · rw [hunk] at leftOk
      exact leftOk
  | hole hole yes no right =>
    simp only [hole, if_true] at h
    split_ifs at h with hgap hru hf <;> cases h
    · exact right hru
    · exact fun hload => hgap (no (by simpa using hru) hload).1
    · rw [hf] at hsame
      exact yes ⟨not_not.1 hgap, .inl hsame⟩

theorem LoadInv.loop {complete : Bool} {vs : List (Scanned F)}
    (hi : LoadInv id delta addr known before after s)
    (hs : Sorted ((before ++ after).map Mapped.vi)) (hc : Completion complete vs after)
    (hk : known → complete = true ∧ ∀ v ∈ vs, v.identity.isSome) :
    (LoadScan.ret complete (s.loop id delta addr (vs.map some))).Decides known
      (InLoad id delta addr (before ++ after)) := by
  induction hc generalizing before s with
  | nil hafter => exact hi.ret_ok hafter fun hkn => (hk hkn).1
  | @cons v w vs ws hv hc ih =>
    have hkv : known → v.identity.isSome := fun hkn => (hk hkn).2 v (by simp)
    rw [List.map_cons, LoadScan.loop]
    cases hstep : s.step id delta addr v with
    | error r => exact hi.step_error hs hv hkv hstep
    | ok s' =>
      have hcons : before ++ w :: ws = before ++ [w] ++ ws := by simp
      rw [hcons] at hs ⊢
      exact ih (hi.step_ok (hcons ▸ hs) hv hkv hstep) hs
        fun hkn => ⟨(hk hkn).1, fun x hx => (hk hkn).2 x (by simp [hx])⟩

end Loop

/-! ### The whole scan -/

theorem Completion.take {complete : Bool} {vs : List (Scanned F)} {ws : List (Mapped F)}
    (h : Completion complete vs ws) (n : ℕ) :
    Completion (complete && vs.length ≤ n) (vs.take n) ws := by
  induction h generalizing n with
  | nil hl =>
    rw [List.take_nil]
    exact .nil (by simpa using hl)
  | cons hv hc ih =>
    cases n with
    | zero => exact .nil (by simp)
    | succ n => exact .cons hv (by simpa using ih n)

/-- The mapping of an entry, taken for no regular file if its identity is unknown. -/
def Scanned.mapped (v : Scanned F) : Mapped F := ⟨v.vi, v.identity.getD none⟩

theorem Scanned.agrees_mapped (v : Scanned F) : v.Agrees v.mapped where
  vi := rfl
  file := fun i hi => by simp [mapped, Option.mem_def.1 hi]

theorem Completion.mapped (complete : Bool) (vs : List (Scanned F)) :
    Completion complete vs (vs.map Scanned.mapped) := by
  induction vs with
  | nil => exact .nil fun _ => rfl
  | cons v vs ih => exact .cons v.agrees_mapped ih

theorem decides_renderAddrInLoad [DecidableEq F] {vs : List (Scanned F)} {truncated : Bool}
    {ws : List (Mapped F)} (hs : Sorted (ws.map Mapped.vi)) (hc : Completion (!truncated) vs ws)
    (id : F) (delta addr : UInt64) :
    (renderAddrInLoad (some ⟨vs.map some, truncated⟩) id delta addr).Decides
      ((truncated = false ∧ vs.length ≤ acMaxVmas) ∧ ∀ v ∈ vs, v.identity.isSome)
      (InLoad id delta addr ws) := by
  have hcomplete : (Scan.mk (vs.map some) truncated).complete =
      (!truncated && vs.length ≤ acMaxVmas) := by simp [Scan.complete]
  rw [renderAddrInLoad, ← List.map_take, hcomplete]
  refine LoadInv.loop (LoadInv.init ws) hs (hc.take acMaxVmas) ?_
  rintro ⟨⟨rfl, hlen⟩, hknown⟩
  exact ⟨by simpa using hlen, fun v hv => hknown v (List.mem_of_mem_take hv)⟩

/-- Whatever the unknown identities are and however a list that was cut off goes on, the answers
yes and no are right; and there is an answer if nothing is unknown. -/
theorem renderAddrInLoad_correct [DecidableEq F] (vs : List (Scanned F)) (truncated : Bool)
    (id : F) (delta addr : UInt64) (hs : Sorted (vs.map Scanned.vi)) :
    (∀ ws, Sorted (ws.map Mapped.vi) → Completion (!truncated) vs ws →
      (renderAddrInLoad (some ⟨vs.map some, truncated⟩) id delta addr = .yes →
        InLoad id delta addr ws) ∧
      (renderAddrInLoad (some ⟨vs.map some, truncated⟩) id delta addr = .no →
        ¬ InLoad id delta addr ws)) ∧
    ((Scan.mk (vs.map some) truncated).complete = true → (∀ v ∈ vs, v.identity.isSome) →
      renderAddrInLoad (some ⟨vs.map some, truncated⟩) id delta addr ≠ .unknown) := by
  refine ⟨fun ws hws hc => ?_, fun hcomplete hknown hret => ?_⟩
  · have hdec := decides_renderAddrInLoad hws hc id delta addr
    exact ⟨fun hret => by rwa [hret] at hdec, fun hret => by rwa [hret] at hdec⟩
  · have hmapped : Sorted ((vs.map Scanned.mapped).map Mapped.vi) := by
      rw [List.map_map]
      exact hs
    have hdec := decides_renderAddrInLoad hmapped (.mapped (!truncated) vs) id delta addr
    rw [hret] at hdec
    exact hdec ⟨by simpa [Scan.complete] using hcomplete, hknown⟩

/-- A page of the library replaced by an anonymous one, next to a file that cannot be identified,
in a list that was cut off. -/
def hole : List (Scanned ℕ) :=
  [⟨⟨0x1000, 0x2000, 0, 7, true, true, []⟩, .regular 7⟩,
    ⟨⟨0x2000, 0x3000, 0, 0, true, false, []⟩, .unreadable⟩,
    ⟨⟨0x3000, 0x4000, 0, 8, true, true, []⟩, .unreadable⟩,
    ⟨⟨0x4000, 0x5000, 0x3000, 7, true, true, []⟩, .regular 7⟩]

theorem renderAddrInLoad_correct_hole :
    renderAddrInLoad (some ⟨hole.map some, true⟩) 7 0x1000 0x2345 = .yes ∧
      InLoad 7 0x1000 0x2345 (hole.map Scanned.mapped) :=
  have hs : Sorted (hole.map Scanned.vi) := ⟨by decide, by decide⟩
  have hyes : renderAddrInLoad (some ⟨hole.map some, true⟩) 7 0x1000 0x2345 = .yes := by decide
  have hload := (renderAddrInLoad_correct hole true 7 0x1000 0x2345 hs).1
    (hole.map Scanned.mapped) hs (.mapped false hole)
  ⟨hyes, hload.1 hyes⟩

end Anticheat.Render
