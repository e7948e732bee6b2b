import Anticheat.Lib.JsonSyntax

/-!
# Searching a JSON text for a quoted word

A search for a word in quotes knows nothing of the structure of the text. What it finds in the text
of a document are the strings that read as the word, whether they are keys or not and wherever they
stand, in the order of the text.
-/

namespace JsonSyntax

open CText (Bytes memmem memmem_cons)

/-- The first occurrence of a needle after which `after` reads something from the text. -/
def search {α : Type} (needle : Bytes) (after : Bytes → Option α) (s : Bytes) : Option α :=
  s.tails.findSome? fun u => if needle <+: u then after (u.drop needle.length) else none

section

variable {α : Type} {needle s : Bytes} {after : Bytes → Option α}

lemma search_nil (hne : needle ≠ []) : search needle after [] = none := by
  simp [search, hne]

lemma search_cons (c : UInt8) :
    search needle after (c :: s) =
      (if needle <+: c :: s then after ((c :: s).drop needle.length) else none).or
        (search needle after s) := by
  rw [search, List.tails_cons, List.findSome?_cons]
  split <;> simp_all [search]

lemma search_some (hne : needle ≠ []) {f : Bytes → α} :
    search needle (fun u => some (f u)) s =
      (memmem needle s).map fun hit => f (hit.drop needle.length) := by
  induction s with
  | nil => simp [search, memmem, hne]
  | cons c s ih =>
    rw [search_cons, memmem_cons, ih]
    split_ifs <;> rfl

end

/-! ### The needle in a string -/

/-- The word in quotes. -/
def quote (k : Bytes) : Bytes := 34 :: k ++ [34]

/-- A byte that can stand right after a string. -/
def IsDelim (c : UInt8) : Prop :=
  c = 32 ∨ c = 9 ∨ c = 10 ∨ c = 13 ∨ c = 44 ∨ c = 58 ∨ c = 93 ∨ c = 125

instance decidableIsDelim (c : UInt8) : Decidable (IsDelim c) :=
  inferInstanceAs (Decidable (_ ∨ _))

/-- A word that is its own text in a string and does not stand outside of one. -/
structure IsWord (k : Bytes) : Prop where
  ne_nil : k ≠ []
  quote : 34 ∉ k
  backslash : 92 ∉ k
  head : ∀ c ∈ k.head?, ¬ IsDelim c

/-- The text of the string is the word, or ends in the word with an escaped quote before it. -/
def Reads (k : Bytes) (s : Str) : Prop := 34 :: k <:+ 34 :: s.text

instance decidableReads (k : Bytes) (s : Str) : Decidable (Reads k s) :=
  inferInstanceAs (Decidable (_ <:+ _))

section

variable {α : Type} {k r : Bytes} {s : Str} {after : Bytes → Option α}

lemma reads_of_text_eq (h : s.text = k) : Reads k s := by
  rw [Reads, h]

/-- From a quote on, the needle is there exactly if the string has no more than the word. -/
lemma quote_prefix_iff (hk : IsWord k) :
    quote k <+: 34 :: (s.text ++ 34 :: r) ↔ s.text = k := by
  have hquote := hk.quote
  have hback := hk.backslash
  clear hk
  rw [quote, List.cons_append, List.cons_prefix_cons]
  simp only [true_and]
  induction s generalizing k with
  | nil =>
    cases k with
    | nil => simp
    | cons b k =>
      have hb : b ≠ 34 := fun h => hquote (by simp [h])
      simp [List.cons_prefix_cons, hb]
  | cons c s ih =>
    cases k with
    | nil =>
      cases c with
      | byte x hx => simp [Chr.text, List.cons_prefix_cons, hx.2.1.symm]
      | esc x hx => simp [Chr.text, List.cons_prefix_cons]
      | code x y z u hx => simp [Chr.text, List.cons_prefix_cons]
    | cons b k =>
      rw [List.mem_cons, not_or] at hquote hback
      cases c with
      | byte x hx =>
        simp [Chr.text, List.cons_prefix_cons, ih hquote.2 hback.2, eq_comm]
      | esc x hx => simp [Chr.text, List.cons_prefix_cons, hback.1, Ne.symm hback.1]
      | code x y z u hx => simp [Chr.text, List.cons_prefix_cons, hback.1, Ne.symm hback.1]

lemma search_quote_cons {c : UInt8} (h : c ≠ 34) (u : Bytes) :
    search (quote k) after (c :: u) = search (quote k) after u := by
  rw [search_cons, if_neg, Option.none_or]
  rw [quote, List.cons_append, List.cons_prefix_cons]
  exact fun hp => h hp.1.symm

lemma search_quote_append {x : Bytes} (h : 34 ∉ x) (u : Bytes) :
    search (quote k) after (x ++ u) = search (quote k) after u := by
  induction x with
  | nil => rfl
  | cons c x ih =>
    rw [List.mem_cons, not_or] at h
    rw [List.cons_append, search_quote_cons (Ne.symm h.1), ih h.2]

/-- The quote that ends a string does not start the needle. -/
lemma search_closing (hk : IsWord k) (hr : ∀ c ∈ r.head?, IsDelim c) :
    search (quote k) after (34 :: r) = search (quote k) after r := by
  rw [search_cons, if_neg, Option.none_or]
  rw [quote, List.cons_append, List.cons_prefix_cons]
  rintro ⟨-, hp⟩
  obtain ⟨b, k', rfl⟩ := List.exists_cons_of_ne_nil hk.ne_nil
  obtain ⟨t, rfl⟩ := hp
  exact hk.head b rfl (hr b rfl)

/-- What a search finds from a quote on: the word itself, or something later. -/
lemma search_opening (hk : IsWord k) :
    search (quote k) after (34 :: (s.text ++ 34 :: r)) =
      (if s.text = k then after r else none).or
        (search (quote k) after (s.text ++ 34 :: r)) := by
  rw [search_cons]
  simp only [quote_prefix_iff hk]
  split_ifs with h
  · have hdrop : (34 :: (s.text ++ 34 :: r)).drop (quote k).length = r := by
      simp [quote, h]
    rw [hdrop]
  · rfl

lemma or_twice {p q : Prop} [Decidable p] [Decidable q] (x y : Option α) :
    (if p then x else none).or ((if q then x else none).or y) =
      (if p ∨ q then x else none).or y := by
  by_cases hp : p <;> by_cases hq : q <;> cases x <;> simp [hp, hq]

/-- A character with a quote in its text is an escaped quote. -/
lemma Chr.text_of_quote_mem {c : Chr} (h : 34 ∈ c.text) : c.text = [92, 34] := by
  cases c with
  | byte b hb => simp [Chr.text, hb.2.1.symm] at h
  | esc c hc =>
    have hc34 : c = 34 := by simpa [Chr.text, eq_comm] using h
    rw [Chr.text, hc34]
  | code a b c d hd =>
    obtain ⟨ha, hb, hc, hd⟩ := isPlain_of_hex4 hd
    simp [Chr.text, ha.2.1.symm, hb.2.1.symm, hc.2.1.symm, hd.2.1.symm] at h

lemma suffix_append_iff {x t : Bytes} (h : 34 ∉ x) : 34 :: k <:+ x ++ t ↔ 34 :: k <:+ t := by
  induction x with
  | nil => rfl
  | cons c x ih =>
    rw [List.mem_cons, not_or] at h
    simp [List.suffix_cons_iff, h.1, ih h.2]

/-- Within a string, the needle starts at an escaped quote before the word at the end. -/
lemma search_text (hk : IsWord k) (hr : ∀ c ∈ r.head?, IsDelim c) :
    search (quote k) after (s.text ++ 34 :: r) =
      (if 34 :: k <:+ s.text then after r else none).or (search (quote k) after r) := by
  induction s with
  | nil =>
    rw [Str.text_nil, List.nil_append, search_closing hk hr, if_neg (by simp), Option.none_or]
  | cons c s ih =>
    rw [Str.text_cons, List.append_assoc]
    by_cases hc : 34 ∈ c.text
    · rw [Chr.text_of_quote_mem hc, List.cons_append, search_quote_cons (by decide),
        List.singleton_append, search_opening hk, ih, or_twice]
      simp [List.suffix_cons_iff, eq_comm]
    · rw [search_quote_append hc, ih]
      simp only [suffix_append_iff hc]

/-- What a search finds from the start of a string on. -/
lemma search_quoted (hk : IsWord k) (hr : ∀ c ∈ r.head?, IsDelim c) :
    search (quote k) after (s.quoted ++ r) =
      (if Reads k s then after r else none).or (search (quote k) after r) := by
  have htext : s.quoted ++ r = 34 :: (s.text ++ 34 :: r) := by simp [Str.quoted]
  rw [htext, search_opening hk, search_text hk hr, or_twice]
  simp [Reads, List.suffix_cons_iff, eq_comm]

end

/-! ### The needle in a document -/

/-- What comes after a value: whitespace and a separator, or nothing. -/
def Ends (r : Bytes) : Prop :=
  ∃ w u, IsWs w ∧ r = w ++ u ∧ ∀ c ∈ u.head?, c = 44 ∨ c = 93 ∨ c = 125

/-- What is read behind a string depends on what the string is: a key with its value, or a
value. -/
structure Tells {α : Type} (after : Bytes → Option α) (what : Option Value → Option α) : Prop where
  value : ∀ {r}, Ends r → after r = what none
  key : ∀ {w w' v t r}, IsWs w → IsWs w' → IsValue v t → Ends r →
    after (w ++ 58 :: w' ++ t ++ r) = what (some v)

/-- What is read behind a string that reads as the word. -/
def hit {α : Type} (k : Bytes) (what : Option Value → Option α) (e : Entry) : Option α :=
  if Reads k e.1 then what e.2 else none

section

variable {w u r : Bytes}

lemma IsWs.quote_notMem (h : IsWs w) : 34 ∉ w := by
  intro hmem
  exact absurd (h 34 hmem) (by decide)

lemma Ends.ws_append (hw : IsWs w) (h : Ends r) : Ends (w ++ r) := by
  obtain ⟨w', u, hw', rfl, hu⟩ := h
  refine ⟨w ++ w', u, ?_, (List.append_assoc _ _ _).symm, hu⟩
  intro c hc
  exact (List.mem_append.mp hc).elim (hw c) (hw' c)

lemma ends_cons {c : UInt8} (h : c = 44 ∨ c = 93 ∨ c = 125) : Ends (c :: u) :=
  ⟨[], c :: u, by simp [IsWs], rfl, by simpa using h⟩

lemma head_ws_append (hw : IsWs w) (hu : ∀ c ∈ u.head?, IsDelim c) :
    ∀ c ∈ (w ++ u).head?, IsDelim c := by
  cases w with
  | nil => exact hu
  | cons b w =>
    rintro c hc
    cases hc
    obtain rfl | rfl | rfl | rfl := hw b (by simp) <;> decide

lemma Ends.head (h : Ends r) : ∀ c ∈ r.head?, IsDelim c := by
  obtain ⟨w, u, hw, rfl, hu⟩ := h
  refine head_ws_append hw fun c hc => ?_
  obtain rfl | rfl | rfl := hu c hc <;> decide

end

section

variable {α : Type} {k : Bytes} {after : Bytes → Option α} {what : Option Value → Option α}

mutual

/-- A search runs through the strings of a value. -/
lemma search_value (hk : IsWord k) (ha : Tells after what) {v : Value} {t r : Bytes}
    (h : IsValue v t) (hr : Ends r) :
    search (quote k) after (t ++ r) =
      (v.strings.findSome? (hit k what)).or (search (quote k) after r) := by
  match h with
  | .lit ht => rw [search_quote_append ht.quote_notMem]; rfl
  | .str s =>
    rw [search_quoted hk hr.head, ha.value hr]
    simp [Value.strings, hit]
  | .arr hvs =>
    rw [List.append_assoc, List.cons_append, search_quote_cons (by decide),
      List.singleton_append, search_elems hk ha hvs, Value.strings]
  | .obj hms =>
    rw [List.append_assoc, List.cons_append, search_quote_cons (by decide),
      List.singleton_append, search_members hk ha hms, Value.strings]

lemma search_elems (hk : IsWord k) (ha : Tells after what) {vs : List Value} {t r : Bytes}
    (h : IsElems vs t) :
    search (quote k) after (t ++ 93 :: r) =
      ((elemStrings vs).findSome? (hit k what)).or (search (quote k) after r) := by
  match h with
  | .nil hw =>
    rw [search_quote_append hw.quote_notMem, search_quote_cons (by decide)]
    rfl
  | .last hw hv hw' =>
    rw [List.append_assoc, List.append_assoc, search_quote_append hw.quote_notMem,
      search_value hk ha hv ((ends_cons (by decide)).ws_append hw'),
      search_quote_append hw'.quote_notMem, search_quote_cons (by decide)]
    simp [elemStrings]
  | .cons hw hv hw' hvs =>
    simp only [List.append_assoc, List.cons_append]
    rw [search_quote_append hw.quote_notMem,
      search_value hk ha hv ((ends_cons (by decide)).ws_append hw'),
      search_quote_append hw'.quote_notMem, search_quote_cons (by decide),
      search_elems hk ha hvs, ← Option.or_assoc, ← List.findSome?_append]
    rfl

lemma search_members (hk : IsWord k) (ha : Tells after what) {ms : List Member} {t r : Bytes}
    (h : IsMembers ms t) :
    search (quote k) after (t ++ 125 :: r) =
      ((memberStrings ms).findSome? (hit k what)).or (search (quote k) after r) := by
  match h with
  | .nil hw =>
    rw [search_quote_append hw.quote_notMem, search_quote_cons (by decide)]
    rfl
  | .last hw hm hw' =>
    rw [List.append_assoc, List.append_assoc, search_quote_append hw.quote_notMem,
      search_member hk ha hm ((ends_cons (by decide)).ws_append hw'),
      search_quote_append hw'.quote_notMem, search_quote_cons (by decide)]
  | .cons hw hm hw' hms =>
    simp only [List.append_assoc, List.cons_append]
    rw [search_quote_append hw.quote_notMem,
      search_member hk ha hm ((ends_cons (by decide)).ws_append hw'),
      search_quote_append hw'.quote_notMem, search_quote_cons (by decide),
      search_members hk ha hms, ← Option.or_assoc, ← List.findSome?_append,
      ← memberStrings_append, List.singleton_append]

lemma search_member (hk : IsWord k) (ha : Tells after what) {m : Member} {t r : Bytes}
    (h : IsMember m t) (hr : Ends r) :
    search (quote k) after (t ++ r) =
      ((memberStrings [m]).findSome? (hit k what)).or (search (quote k) after r) := by
  match h with
  | @IsMember.mk key v w w' t hw hw' hv =>
    have hassoc : key.quoted ++ w ++ 58 :: w' ++ t ++ r =
        key.quoted ++ (w ++ 58 :: w' ++ t ++ r) := by simp
    have hskip : search (quote k) after (w ++ 58 :: w' ++ t ++ r) =
        search (quote k) after (t ++ r) := by
      simp only [List.append_assoc, List.cons_append]
      rw [search_quote_append hw.quote_notMem, search_quote_cons (by decide),
        search_quote_append hw'.quote_notMem]
    rw [hassoc, search_quoted hk, ha.key hw hw' hv hr, hskip, search_value hk ha hv hr]
    · simp only [memberStrings, List.append_nil, List.findSome?_cons, hit]
      split_ifs <;> cases what (some v) <;> simp
    · simp only [List.append_assoc, List.cons_append]
      refine head_ws_append hw ?_
      rintro c hc
      cases hc
      decide

end

/-- A search of a document runs through its strings. -/
theorem search_document (hk : IsWord k) (ha : Tells after what) {v : Value} {t : Bytes}
    (h : IsDocument v t) :
    search (quote k) after t = v.strings.findSome? (hit k what) := by
  obtain ⟨w, t, w', hw, ht, hw', rfl⟩ := h
  have hend : Ends w' := ⟨w', [], hw', (List.append_nil w').symm, by simp⟩
  have hnil : search (quote k) after w' = none := by
    rw [← List.append_nil w', search_quote_append hw'.quote_notMem]
    exact search_nil (by simp [quote])
  rw [List.append_assoc, search_quote_append hw.quote_notMem, search_value hk ha ht hend, hnil,
    Option.or_none]

end

end JsonSyntax
