import Anticheat.Syscalls.Ranges

/-!
# The bounds of the kernel text

`ac_resolve_text_bounds` takes the bounds from symbols, as far as it can look them up, and
`ac_derive_bounds` fills in what is missing from the entries of the syscall table. If the end of the
text was not resolved, it is derived from the highest entry, and the entries that were taken for
handlers lie within the bounds.
-/

namespace Anticheat.Syscalls

/-- The static data of the bounds. -/
structure BoundState where
  stext : UInt64
  etext : UInt64
  textEnd : UInt64
  textEndGuessed : Bool
  deriving DecidableEq, Repr

/-- `ac_resolve_text_bounds` at load; `lookup` is `ac_lookup`, which is 0 if it fails. -/
def acResolveTextBounds (lookup : String → UInt64) : BoundState :=
  let stext := if lookup "_stext" = 0 then lookup "_text" else lookup "_stext"
  let etext := if lookup "_etext" = 0 then lookup "_sinittext" else lookup "_etext"
  if etext ≠ 0 then ⟨stext, etext, etext, false⟩
  else if stext ≠ 0 then ⟨stext, etext, stext + 0x20000000, true⟩
  else ⟨stext, etext, 0, false⟩

/-- `ac_plausible_handler` -/
def acPlausibleHandler (ring : List LoadedModule) (e anchor : UInt64) : Bool :=
  TextBounds.plausibleHandler ⟨0, 0, anchor⟩ e (acAddrInModule ring e)

/-- The loop of `ac_derive_bounds` over the entries, with what it has found of `lo` and `hi`. -/
def deriveLoop (ring : List LoadedModule) (anchor : UInt64) :
    List (Option UInt64) → UInt64 × UInt64 → UInt64 × UInt64
  | [], r => r
  | none :: es, r => deriveLoop ring anchor es r
  | some e :: es, (lo, hi) =>
    if !acPlausibleHandler ring e anchor then deriveLoop ring anchor es (lo, hi)
    else
      deriveLoop ring anchor es
        (if lo = 0 || e < lo then e else lo, if hi < e then e else hi)

/-- `ac_derive_bounds`; an entry is `none` if it cannot be read. -/
def acDeriveBounds (ring : List LoadedModule) (entries : List (Option UInt64)) (anchor : UInt64)
    (s : BoundState) : BoundState :=
  let (lo, hi) := deriveLoop ring anchor entries (0, 0)
  if lo ≠ 0 && hi ≠ 0 then
    let derivedEnd := (hi + 1 + 0x1FFFFF) &&& ~~~0x1FFFFF
    { s with
      stext := if s.stext = 0 then lo &&& ~~~0x1FFFFF else s.stext
      textEnd :=
        if s.textEnd = 0 then derivedEnd
        else if s.textEndGuessed && derivedEnd ≠ s.textEnd then derivedEnd
        else s.textEnd
      textEndGuessed := false }
  else s

/-! ### Rounding to 2 MiB -/

lemma toNat_round_down (x : UInt64) :
    (x &&& ~~~0x1FFFFF).toNat = x.toNat / 2 ^ 21 * 2 ^ 21 := by
  have hmask : (~~~0x1FFFFF : UInt64).toNat = (2 ^ 43 - 1) * 2 ^ 21 := by decide
  rw [UInt64.toNat_and, hmask]
  refine Nat.eq_of_testBit_eq fun i => ?_
  rw [Nat.testBit_and, Nat.testBit_mul_two_pow, Nat.testBit_mul_two_pow,
    Nat.testBit_two_pow_sub_one, Nat.testBit_div_two_pow]
  by_cases hi : 21 ≤ i
  · rw [Nat.sub_add_cancel hi]
    by_cases hi' : i < 64
    · simp [hi, show i - 21 < 43 by omega]
    · have hlt : x.toNat < 2 ^ i :=
        Nat.lt_of_lt_of_le x.toNat_lt (Nat.pow_le_pow_right (by decide) (Nat.le_of_not_lt hi'))
      simp [Nat.testBit_lt_two_pow hlt]
  · simp [hi]

/-- The end that is derived from the highest handler lies above it, by at most 2 MiB. -/
lemma derivedEnd_bounds {hi : UInt64} (h : hi.toNat < 2 ^ 64 - 0x4000000) :
    hi.toNat < ((hi + 1 + 0x1FFFFF) &&& ~~~0x1FFFFF).toNat ∧
      ((hi + 1 + 0x1FFFFF) &&& ~~~0x1FFFFF).toNat ≤ hi.toNat + 0x200000 := by
  have hsum : (hi + 1 + 0x1FFFFF).toNat = hi.toNat + 0x200000 := by
    rw [UInt64.toNat_add, UInt64.toNat_add]
    simp only [UInt64.toNat_one, UInt64.reduceToNat]
    omega
  rw [toNat_round_down, hsum]
  omega

/-! ### The lowest and the highest handler -/

/-- What the loop has found in the entries it has seen: nothing, or the lowest and the highest of
those that are accepted. -/
structure Spans (accepted : UInt64 → Prop) (seen : List (Option UInt64)) (r : UInt64 × UInt64) :
    Prop where
  lo_mem : r.1 ≠ 0 → some r.1 ∈ seen ∧ accepted r.1
  hi_mem : r.2 ≠ 0 → some r.2 ∈ seen ∧ accepted r.2
  between : ∀ e, some e ∈ seen → accepted e → r.1 ≠ 0 ∧ r.1 ≤ e ∧ e ≤ r.2

section

variable {accepted : UInt64 → Prop} {seen : List (Option UInt64)} {r : UInt64 × UInt64}

lemma Spans.skip (h : Spans accepted seen r) {o : Option UInt64}
    (ho : ∀ e, o = some e → ¬ accepted e) : Spans accepted (seen ++ [o]) r where
  lo_mem hlo := (h.lo_mem hlo).imp_left fun hmem => by simp [hmem]
  hi_mem hhi := (h.hi_mem hhi).imp_left fun hmem => by simp [hmem]
  between e he hacc := by
    obtain he | he := List.mem_append.mp he
    · exact h.between e he hacc
    · exact absurd hacc (ho e (List.mem_singleton.mp he).symm)

lemma Spans.accept (h : Spans accepted seen r) {e : UInt64} (he : accepted e) (h0 : e ≠ 0) :
    Spans accepted (seen ++ [some e])
      (if r.1 = 0 || e < r.1 then e else r.1, if r.2 < e then e else r.2) where
  lo_mem hlo := by
    dsimp only at hlo ⊢
    split_ifs at hlo ⊢ with hlow
    · exact ⟨by simp, he⟩
    · exact (h.lo_mem hlo).imp_left fun hmem => by simp [hmem]
  hi_mem hhi := by
    dsimp only at hhi ⊢
    split_ifs at hhi ⊢ with hhigh
    · exact ⟨by simp, he⟩
    · exact (h.hi_mem hhi).imp_left fun hmem => by simp [hmem]
  between e' he' hacc := by
    simp only [Bool.or_eq_true, decide_eq_true_eq, UInt64.le_iff_toNat_le,
      UInt64.lt_iff_toNat_lt]
    obtain he' | he' := List.mem_append.mp he'
    · obtain ⟨hlo, hle, hge⟩ := h.between e' he' hacc
      rw [UInt64.le_iff_toNat_le] at hle hge
      refine ⟨by split_ifs <;> assumption, ?_, ?_⟩
      · split_ifs with hlow
        · exact (hlow.resolve_left hlo).le.trans hle
        · exact hle
      · split_ifs with hhigh
        · exact hge.trans hhigh.le
        · exact hge
    · cases List.mem_singleton.mp he'
      refine ⟨?_, ?_, ?_⟩
      · split_ifs with hlow
        · exact h0
        · exact fun hzero => hlow (.inl hzero)
      · split_ifs with hlow
        · exact le_rfl
        · exact Nat.le_of_not_lt fun hlt => hlow (.inr hlt)
      · split_ifs with hhigh
        · exact le_rfl
        · exact Nat.le_of_not_lt hhigh

end

lemma deriveLoop_spans (ring : List LoadedModule) (anchor : UInt64)
    (es seen : List (Option UInt64)) (r : UInt64 × UInt64)
    (h : Spans (acPlausibleHandler ring · anchor = true) seen r) :
    Spans (acPlausibleHandler ring · anchor = true) (seen ++ es)
      (deriveLoop ring anchor es r) := by
  induction es generalizing seen r with
  | nil => simpa [deriveLoop] using h
  | cons o es ih =>
    rw [List.append_cons]
    cases o with
    | none => exact ih _ _ (h.skip (by simp))
    | some e =>
      obtain ⟨lo, hi⟩ := r
      rw [deriveLoop]
      cases hacc : acPlausibleHandler ring e anchor with
      | false => exact ih _ _ (h.skip (by simp [hacc]))
      | true =>
        have h0 : e ≠ 0 := by
          rintro rfl
          cases hacc
        exact ih _ _ (h.accept hacc h0)

/-- The lowest and the highest handler, as `ac_derive_bounds` has them after its loop. -/
lemma deriveLoop_spec (ring : List LoadedModule) (anchor : UInt64) (es : List (Option UInt64)) :
    Spans (acPlausibleHandler ring · anchor = true) es (deriveLoop ring anchor es (0, 0)) :=
  deriveLoop_spans ring anchor es [] (0, 0) ⟨by simp, by simp, by simp⟩

/-! ### The bounds after both functions -/

/-- A handler lies near the anchor, and so away from both ends of the address space. -/
lemma acPlausibleHandler_bounds {ring : List LoadedModule} {e anchor : UInt64}
    (hlo : 0x8000000 ≤ anchor.toNat) (hhi : anchor.toNat ≤ 2 ^ 64 - 0x8000000)
    (h : acPlausibleHandler ring e anchor = true) :
    acAddrInModule ring e = false ∧ 0x4000000 < e.toNat ∧ e.toNat < 2 ^ 64 - 0x4000000 := by
  rw [acPlausibleHandler, TextBounds.plausibleHandler] at h
  split_ifs at h with h0 hmod
  simp only [Bool.and_eq_true, decide_eq_true_eq, UInt64.lt_iff_toNat_lt, UInt64.toNat_add,
    UInt64.toNat_sub, UInt64.reduceToNat] at h
  refine ⟨by simpa using hmod, ?_, ?_⟩ <;> omega

/-- Without a resolved end of the text there is none, or the placeholder. -/
lemma acResolveTextBounds_unresolved {lookup : String → UInt64} (hetext : lookup "_etext" = 0)
    (hsinittext : lookup "_sinittext" = 0) :
    (acResolveTextBounds lookup).textEnd = 0 ∨
      (acResolveTextBounds lookup).textEndGuessed = true := by
  rw [acResolveTextBounds]
  generalize (if lookup "_stext" = 0 then lookup "_text" else lookup "_stext") = stext
  simp only [hetext, hsinittext, if_true, ne_eq, not_true_eq_false, if_false]
  by_cases hstext : stext = 0
  · left
    simp [hstext]
  · right
    simp [hstext]

/-- In all cases the end is then the one derived from the highest handler. -/
lemma acDeriveBounds_eq {ring : List LoadedModule} {entries : List (Option UInt64)}
    {anchor : UInt64} {s : BoundState} (hs : s.textEnd = 0 ∨ s.textEndGuessed = true)
    {lo hi : UInt64} (hloop : deriveLoop ring anchor entries (0, 0) = (lo, hi)) (hlo : lo ≠ 0)
    (hhi : hi ≠ 0) :
    acDeriveBounds ring entries anchor s =
      ⟨if s.stext = 0 then lo &&& ~~~0x1FFFFF else s.stext, s.etext,
        (hi + 1 + 0x1FFFFF) &&& ~~~0x1FFFFF, false⟩ := by
  rw [acDeriveBounds, hloop]
  simp only [hlo, hhi, ne_eq, not_false_eq_true, decide_true, Bool.and_self, if_true]
  congr 1
  split_ifs with hzero hguess
  · rfl
  · rfl
  · -- the placeholder is the derived end already
    obtain hs | hs := hs
    · exact absurd hs hzero
    · simp only [hs, Bool.true_and, decide_eq_true_eq, not_not] at hguess
      exact hguess.symm

/-- As soon as there is one handler, the bounds are those of the lowest and the highest one. -/
lemma exists_derived {ring : List LoadedModule} {entries : List (Option UInt64)}
    {anchor : UInt64} (hlo : 0x8000000 ≤ anchor.toNat) (hhi : anchor.toNat ≤ 2 ^ 64 - 0x8000000)
    {s : BoundState} (hs : s.textEnd = 0 ∨ s.textEndGuessed = true) {e : UInt64}
    (he : some e ∈ entries) (hacc : acPlausibleHandler ring e anchor = true) :
    ∃ lo hi, acDeriveBounds ring entries anchor s =
        ⟨if s.stext = 0 then lo &&& ~~~0x1FFFFF else s.stext, s.etext,
          (hi + 1 + 0x1FFFFF) &&& ~~~0x1FFFFF, false⟩ ∧
      0x4000000 < lo.toNat ∧ hi.toNat < 2 ^ 64 - 0x4000000 ∧
      (some hi ∈ entries ∧ acPlausibleHandler ring hi anchor = true) ∧
      ∀ e', some e' ∈ entries → acPlausibleHandler ring e' anchor = true → lo ≤ e' ∧ e' ≤ hi := by
  obtain ⟨lo, hi, hloop⟩ : ∃ lo hi, deriveLoop ring anchor entries (0, 0) = (lo, hi) :=
    ⟨_, _, rfl⟩
  have hspans := deriveLoop_spec ring anchor entries
  rw [hloop] at hspans
  obtain ⟨hlo0, -, hge⟩ := hspans.between e he hacc
  have hhi0 : hi ≠ 0 := by
    rintro rfl
    have h0 := (acPlausibleHandler_bounds hlo hhi hacc).2.1
    rw [UInt64.le_iff_toNat_le, UInt64.toNat_zero] at hge
    omega
  obtain ⟨-, hlow, -⟩ := acPlausibleHandler_bounds hlo hhi (hspans.lo_mem hlo0).2
  obtain ⟨-, -, hhigh⟩ := acPlausibleHandler_bounds hlo hhi (hspans.hi_mem hhi0).2
  exact ⟨lo, hi, acDeriveBounds_eq hs hloop hlo0 hhi0, hlow, hhigh, hspans.hi_mem hhi0,
    fun e' he' hacc' => (hspans.between e' he' hacc').2⟩

/-- An address between the bounds and in no module is good. -/
lemma TextBounds.acEntryBad_eq_false {k : TextBounds} {e : UInt64} (h0 : k.stext ≠ 0)
    (hle : k.stext ≤ e) (hlt : e < k.textEnd) : k.acEntryBad e false = false := by
  have hend : k.textEnd ≠ 0 := by
    intro hzero
    rw [hzero, UInt64.lt_iff_toNat_lt] at hlt
    exact Nat.not_lt_zero _ hlt
  simp [acEntryBad, entryBad, inCoreText, h0, hend, hle, hlt]

/-- If the end of the text was not resolved, every entry that is taken for a handler and not below
a resolved start is good afterwards, and the end lies above the highest handler by at most 2 MiB. -/
theorem acDeriveBounds_good (lookup : String → UInt64) (hetext : lookup "_etext" = 0)
    (hsinittext : lookup "_sinittext" = 0) (ring : List LoadedModule)
    (entries : List (Option UInt64)) (anchor : UInt64) (hlo : 0x8000000 ≤ anchor.toNat)
    (hhi : anchor.toNat ≤ 2 ^ 64 - 0x8000000) :
    let s := acResolveTextBounds lookup
    let s' := acDeriveBounds ring entries anchor s
    (∀ e, some e ∈ entries → acPlausibleHandler ring e anchor = true →
      (s.stext ≠ 0 → s.stext ≤ e) →
      TextBounds.acEntryBad ⟨s'.stext, s'.textEnd, anchor⟩ e (acAddrInModule ring e) = false) ∧
    ∀ e, some e ∈ entries → acPlausibleHandler ring e anchor = true →
      (∀ e', some e' ∈ entries → acPlausibleHandler ring e' anchor = true → e' ≤ e) →
      e < s'.textEnd ∧ s'.textEnd.toNat ≤ e.toNat + 0x200000 := by
  have hs := acResolveTextBounds_unresolved hetext hsinittext
  refine ⟨fun e he hacc hstext => ?_, fun e he hacc hmax => ?_⟩
  · obtain ⟨lo, hi, hderived, hlow, hhigh, -, hbetween⟩ := exists_derived hlo hhi hs he hacc
    obtain ⟨hle, hge⟩ := hbetween e he hacc
    obtain ⟨hmod, -⟩ := acPlausibleHandler_bounds hlo hhi hacc
    obtain ⟨hend, -⟩ := derivedEnd_bounds hhigh
    have hround := toNat_round_down lo
    rw [UInt64.le_iff_toNat_le] at hle hge
    rw [hderived, hmod]
    apply TextBounds.acEntryBad_eq_false
    · dsimp only
      split_ifs with hzero
      · rw [← UInt64.toNat_inj.ne, hround, UInt64.toNat_zero]
        omega
      · exact hzero
    · dsimp only
      split_ifs with hzero
      · rw [UInt64.le_iff_toNat_le, hround]
        omega
      · exact hstext hzero
    · exact UInt64.lt_iff_toNat_lt.mpr (Nat.lt_of_le_of_lt hge hend)
  · obtain ⟨lo, hi, hderived, -, hhigh, ⟨hhi, hacchi⟩, hbetween⟩ :=
      exists_derived hlo hhi hs he hacc
    have heq : hi = e := UInt64.le_antisymm (hmax hi hhi hacchi) (hbetween e he hacc).2
    subst heq
    rw [hderived, UInt64.lt_iff_toNat_lt]
    exact derivedEnd_bounds hhigh

/-- A kernel in which only `_stext` can be looked up. -/
def onlyStext (name : String) : UInt64 := if name = "_stext" then 0x81000000 else 0

/-- The highest handler stands on a multiple of 2 MiB. -/
theorem acDeriveBounds_good_aligned :
    let s' := acDeriveBounds [] [some 0x81100000, none, some 0x81200000] 0x81100000
      (acResolveTextBounds onlyStext)
    TextBounds.acEntryBad ⟨s'.stext, s'.textEnd, 0x81100000⟩ 0x81200000 false = false ∧
      0x81200000 < s'.textEnd := by
  have h := acDeriveBounds_good onlyStext (by decide) (by decide) []
    [some 0x81100000, none, some 0x81200000] 0x81100000 (by decide) (by decide)
  refine ⟨h.1 0x81200000 (by decide) (by decide) (by decide), ?_⟩
  refine (h.2 0x81200000 (by decide) (by decide) fun e he _ => ?_).1
  simp only [List.mem_cons, Option.some.injEq, List.not_mem_nil, or_false, reduceCtorEq,
    false_or] at he
  obtain rfl | rfl := he <;> decide

end Anticheat.Syscalls
