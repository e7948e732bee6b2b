import Anticheat.Lib.JsonSearch
import Anticheat.Report.Body

/-!
# Layer manifests

The fields of a layer manifest are searched for as text: `json_extract_string` takes the first key
that reads as the name of the field and has a string for its value, and `json_extract_disable_env`
looks at the first string that reads as `disable_environment`, wherever they stand in the document.
They belong to the layer itself if no other comes first.
-/

namespace Anticheat.Periodic

open JsonSyntax
open CText (Bytes isDigit isspace memmem memmem_cons memmem_suffix)
open Report (bytes)

/-- `AC_MANIFEST_STR_LEN` -/
def acManifestStrLen : ℕ := 256

/-- `struct ac_implicit_layer` -/
structure AcImplicitLayer where
  name : Bytes
  libraryPath : Bytes
  disableEnv : Bytes
  deriving DecidableEq, Repr

/-! ### The fields of a manifest -/

/-- What follows a byte that comes next after whitespace. -/
def expect (c : UInt8) (q : Bytes) : Option Bytes :=
  match q.dropWhile isspace with
  | [] => none
  | b :: q => if b = c then some q else none

/-- The bytes of a string from after its opening quote on, without the backslashes. -/
def copyBody : Bytes → Bytes
  | [] => []
  | [c] => if c = 34 then [] else [c]
  | c :: d :: q =>
    if c = 34 then [] else if c = 92 then d :: copyBody q else c :: copyBody (d :: q)

/-- The C string that is left in a buffer. -/
def copyString (outsz : ℕ) (q : Bytes) : Bytes :=
  ((copyBody q).take (outsz - 1)).takeWhile (· ≠ 0)

/-- What follows a key whose value is a string, from after the opening quote on. -/
def stringAfter (q : Bytes) : Option Bytes := (expect 58 q).bind (expect 34)

/-- What follows a key whose value is an object with a member, from after the opening quote of its
first key on. -/
def firstKeyAfter (q : Bytes) : Option Bytes := ((expect 58 q).bind (expect 123)).bind (expect 34)

/-- The loop of `json_extract_string`. -/
def extractFrom (needle : Bytes) (outsz : ℕ) (p : Bytes) : Option Bytes :=
  if p = [] then none
  else
    match _h : memmem needle p with
    | none => none
    | some hit =>
      match stringAfter (hit.drop needle.length) with
      | some q => some (copyString outsz q)
      | none => extractFrom needle outsz hit.tail
termination_by p.length
decreasing_by
  have hp := List.length_pos_of_ne_nil ‹¬ p = []›
  have hle := (memmem_suffix ‹memmem needle p = some hit›).length_le
  rw [List.length_tail]
  omega

/-- `json_extract_string` -/
def jsonExtractString (json key : Bytes) (outsz : ℕ) : Option Bytes :=
  if 64 ≤ (quote key).length then none else extractFrom (quote key) outsz json

/-- `json_extract_disable_env` -/
def jsonExtractDisableEnv (json : Bytes) (outsz : ℕ) : Option Bytes :=
  (memmem (quote (bytes "disable_environment")) json).bind fun hit =>
    (firstKeyAfter (hit.drop (quote (bytes "disable_environment")).length)).map
      (copyString outsz)

/-- The layer that a manifest describes, if it has a name and a path. -/
def manifestLayer (buf : Bytes) : Option AcImplicitLayer :=
  (jsonExtractString buf (bytes "name") acManifestStrLen).bind fun name =>
    (jsonExtractString buf (bytes "library_path") acManifestStrLen).map fun libraryPath =>
      ⟨name, libraryPath, (jsonExtractDisableEnv buf acManifestStrLen).getD []⟩

/-! ### Copying a string -/

/-- What is copied of a character. -/
def copiedChr : Chr → Bytes
  | .byte b _ => [b]
  | .esc c _ => [c]
  | .code a b c d _ => [117, a, b, c, d]

/-- What is copied of a string: the letter of an escape stands for itself. -/
def copied (s : Str) : Bytes := s.flatMap copiedChr

section

variable {s : Str} {q r : Bytes} {c : UInt8}

lemma copyBody_cons (h34 : c ≠ 34) (h92 : c ≠ 92) : copyBody (c :: q) = c :: copyBody q := by
  cases q with
  | nil => simp [copyBody, h34]
  | cons d q => simp [copyBody, h34, h92]

lemma copyBody_escape : copyBody (92 :: c :: q) = c :: copyBody q := by
  simp [copyBody]

lemma copyBody_text : copyBody (s.text ++ 34 :: r) = copied s := by
  induction s with
  | nil => cases r <;> simp [copyBody, copied]
  | cons x s ih =>
    rw [copied, List.flatMap_cons, ← copied, ← ih, Str.text_cons]
    cases x with
    | byte b hb => exact copyBody_cons hb.2.1 hb.2.2
    | esc c hc => exact copyBody_escape
    | code a b c d hd =>
      obtain ⟨ha, hb, hc, hd⟩ := isPlain_of_hex4 hd
      simp [Chr.text, copiedChr, copyBody_escape, copyBody_cons ha.2.1 ha.2.2,
        copyBody_cons hb.2.1 hb.2.2, copyBody_cons hc.2.1 hc.2.2, copyBody_cons hd.2.1 hd.2.2]

lemma copied_eq_text (h : 92 ∉ s.text) : copied s = s.text := by
  rw [copied, Str.text]
  refine List.flatMap_congr fun c hc => ?_
  obtain ⟨b, hb, rfl⟩ := Str.eq_byte_of_mem h hc
  rfl

/-- A string of a document has no NUL. -/
lemma zero_notMem_copied : 0 ∉ copied s := by
  have hplain : ∀ {b : UInt8}, IsPlain b → b ≠ 0 := by
    rintro b hb rfl
    exact absurd hb (by decide)
  rw [copied, List.mem_flatMap]
  rintro ⟨x, -, hx⟩
  cases x with
  | byte b hb => exact hplain hb (by simpa [copiedChr, eq_comm] using hx)
  | esc c hc =>
    have hc0 : c = 0 := by simpa [copiedChr, eq_comm] using hx
    rw [hc0] at hc
    exact absurd hc (by decide)
  | code a b c d hd =>
    obtain ⟨ha, hb, hc, hd⟩ := isPlain_of_hex4 hd
    simp [copiedChr, (hplain ha).symm, (hplain hb).symm, (hplain hc).symm, (hplain hd).symm]
      at hx

lemma copyString_text (outsz : ℕ) :
    copyString outsz (s.text ++ 34 :: r) = (copied s).take (outsz - 1) := by
  rw [copyString, copyBody_text, List.takeWhile_eq_self_iff]
  intro b hb
  simpa using ne_of_mem_of_not_mem (List.mem_of_mem_take hb) zero_notMem_copied

end

/-! ### What is read behind a key -/

section

variable {w q r t : Bytes} {c b : UInt8} {v : Value}

lemma expect_ws (hw : IsWs w) : expect c (w ++ q) = expect c q := by
  have hspace : ∀ x ∈ w, isspace x = true := by
    intro x hx
    obtain rfl | rfl | rfl | rfl := hw x hx <;> rfl
  rw [expect, expect, List.dropWhile_append_of_pos hspace]

lemma expect_cons (hb : isspace b = false) :
    expect c (b :: q) = if b = c then some q else none := by
  simp [expect, hb]

/-- After a value comes no colon. -/
lemma expect_ends (hr : Ends r) : expect 58 r = none := by
  obtain ⟨w, u, hw, rfl, hu⟩ := hr
  rw [expect_ws hw]
  cases u with
  | nil => rfl
  | cons b u => obtain rfl | rfl | rfl := hu b rfl <;> rfl

/-- After a key comes a colon. -/
lemma expect_colon (hw : IsWs w) : expect 58 (w ++ 58 :: q ++ t ++ r) = some (q ++ (t ++ r)) := by
  rw [List.append_assoc, List.append_assoc, expect_ws hw, List.cons_append,
    expect_cons (by decide), if_pos rfl]

lemma expect_quoted (s : Str) (outsz : ℕ) :
    (expect 34 (s.quoted ++ r)).map (copyString outsz) = some ((copied s).take (outsz - 1)) := by
  rw [Str.quoted, List.cons_append, List.cons_append, expect_cons (by decide), if_pos rfl,
    Option.map_some, List.append_assoc, List.singleton_append, copyString_text]

/-- What `json_extract_string` takes from behind a string. -/
def stringField (outsz : ℕ) : Option Value → Option Bytes
  | some (.str s) => some ((copied s).take (outsz - 1))
  | _ => none

/-- The first key of an object. -/
def firstKey : Value → Option Str
  | .obj ((k, _) :: _) => some k
  | _ => none

/-- What `json_extract_disable_env` takes from behind a string. -/
def firstKeyField (outsz : ℕ) (e : Option Value) : Option Bytes :=
  (e.bind firstKey).map fun k => (copied k).take (outsz - 1)

/-- A literal is neither a string nor an object. -/
lemma expect_lit (h : IsLit t) : expect 34 (t ++ r) = none ∧ expect 123 (t ++ r) = none := by
  obtain ⟨c, rest, rfl, hc⟩ := h.head
  have hfirst : isspace c = false ∧ c ≠ 34 ∧ c ≠ 123 := by
    obtain hdigit | rfl | rfl | rfl | rfl := hc
    · simp only [isDigit, Bool.and_eq_true, decide_eq_true_eq, UInt8.le_iff_toNat_le,
        UInt8.reduceToNat] at hdigit
      simp only [isspace, Bool.or_eq_false_iff, Bool.and_eq_false_iff, decide_eq_false_iff_not,
        UInt8.le_iff_toNat_le, ne_eq, ← UInt8.toNat_inj, UInt8.reduceToNat]
      omega
    all_goals decide
  rw [List.cons_append, expect_cons hfirst.1, expect_cons hfirst.1, if_neg hfirst.2.1,
    if_neg hfirst.2.2]
  exact ⟨rfl, rfl⟩

lemma expect_quote_value (h : IsValue v t) (outsz : ℕ) :
    (expect 34 (t ++ r)).map (copyString outsz) = stringField outsz (some v) := by
  cases h with
  | lit ht =>
    rw [(expect_lit ht).1]
    rfl
  | str s => exact expect_quoted s outsz
  | arr hvs => rfl
  | obj hms => rfl

lemma tells_stringField (outsz : ℕ) :
    Tells (fun q => (stringAfter q).map (copyString outsz)) (stringField outsz) where
  value hr := by
    rw [stringAfter, expect_ends hr]
    rfl
  key hw hw' hv hr := by
    rw [stringAfter, expect_colon hw, Option.bind_some, expect_ws hw', expect_quote_value hv]

/-- The first key of an object is the first thing in it. -/
lemma expect_quote_members {ms : List Member} (h : IsMembers ms t) (outsz : ℕ) :
    (expect 34 (t ++ 125 :: r)).map (copyString outsz) =
      firstKeyField outsz (some (.obj ms)) := by
  have hmember : ∀ {m : Member} {w t r : Bytes}, IsWs w → IsMember m t →
      (expect 34 (w ++ t ++ r)).map (copyString outsz) =
        some ((copied m.1).take (outsz - 1)) := by
    rintro m w t r hw ⟨-, -, -⟩
    simp only [List.append_assoc]
    rw [expect_ws hw, expect_quoted]
  cases h with
  | nil hw => rw [expect_ws hw]; rfl
  | last hw hm hw' =>
    rw [List.append_assoc, hmember hw hm]
    rfl
  | cons hw hm hw' hms =>
    rw [List.append_assoc, List.append_assoc, hmember hw hm]
    rfl

lemma expect_brace_value (h : IsValue v t) (outsz : ℕ) :
    ((expect 123 (t ++ r)).bind (expect 34)).map (copyString outsz) =
      firstKeyField outsz (some v) := by
  cases h with
  | lit ht =>
    rw [(expect_lit ht).2]
    rfl
  | str s => rfl
  | arr hvs => rfl
  | obj hms =>
    rw [List.cons_append, List.cons_append, expect_cons (by decide), if_pos rfl, Option.bind_some,
      List.append_assoc, List.singleton_append, expect_quote_members hms]

lemma tells_firstKeyField (outsz : ℕ) :
    Tells (fun q => some ((firstKeyAfter q).map (copyString outsz)))
      (fun e => some (firstKeyField outsz e)) where
  value hr := by
    rw [firstKeyAfter, expect_ends hr]
    rfl
  key hw hw' hv hr := by
    rw [firstKeyAfter, expect_colon hw, Option.bind_some, expect_ws hw', expect_brace_value hv]

/-! ### The search -/

section

variable {needle p found : Bytes} (outsz : ℕ)

lemma extractFrom_of_none (h : memmem needle p = none) : extractFrom needle outsz p = none := by
  rw [extractFrom]
  split_ifs
  · rfl
  · split
    · rfl
    · next hsome => cases h.symm.trans hsome

lemma extractFrom_of_some (hp : p ≠ []) (h : memmem needle p = some found) :
    extractFrom needle outsz p =
      ((stringAfter (found.drop needle.length)).map (copyString outsz)).or
        (extractFrom needle outsz found.tail) := by
  rw [extractFrom, if_neg hp]
  split
  · next hnone => cases h.symm.trans hnone
  · next hsome =>
    cases h.symm.trans hsome
    cases stringAfter (found.drop needle.length) <;> rfl

/-- The loop tries every occurrence of the needle, from the first on. -/
lemma extractFrom_eq (hne : needle ≠ []) :
    extractFrom needle outsz p =
      search needle (fun q => (stringAfter q).map (copyString outsz)) p := by
  induction p with
  | nil => rw [extractFrom, if_pos rfl, search_nil hne]
  | cons c p ih =>
    rw [search_cons, ← ih]
    by_cases hprefix : needle <+: c :: p
    · have hhit : memmem needle (c :: p) = some (c :: p) := by
        rw [memmem_cons, if_pos hprefix]
      rw [extractFrom_of_some outsz (List.cons_ne_nil c p) hhit, if_pos hprefix, List.tail_cons]
    · have hskip : memmem needle (c :: p) = memmem needle p := by
        rw [memmem_cons, if_neg hprefix]
      rw [if_neg hprefix, Option.none_or]
      cases hmem : memmem needle p with
      | none => rw [extractFrom_of_none outsz (hskip.trans hmem), extractFrom_of_none outsz hmem]
      | some found =>
        have hp : p ≠ [] := by
          rintro rfl
          simp [memmem, hne] at hmem
        rw [extractFrom_of_some outsz (List.cons_ne_nil c p) (hskip.trans hmem),
          extractFrom_of_some outsz hp hmem]

end

/-- `json_extract_string` takes the first key of the document that reads as the name and has a
string for its value. -/
lemma jsonExtractString_document {key : Bytes} (hkey : IsWord key) (hlen : key.length < 62)
    (outsz : ℕ) (h : IsDocument v t) :
    jsonExtractString t key outsz = v.strings.findSome? (hit key (stringField outsz)) := by
  rw [jsonExtractString, if_neg (by simp [quote]; omega), extractFrom_eq outsz (by simp [quote]),
    search_document hkey (tells_stringField outsz) h]

/-- What is stored of a string. -/
def stored (s : Str) : Bytes := (copied s).take (acManifestStrLen - 1)

/-- The string that a key has for its value. -/
def asString : Option Value → Option Str
  | some (.str s) => some s
  | _ => none

/-- The first string in the document that is the value of a key that reads as the name. -/
def firstString (doc : Value) (name : Bytes) : Option Str :=
  doc.strings.findSome? (hit name asString)

lemma stringField_eq (e : Option Value) :
    stringField acManifestStrLen e = (asString e).map stored := by
  match e with
  | some (.str s) => rfl
  | some (.lit _ _) | some (.arr _) | some (.obj _) | none => rfl

lemma jsonExtractString_eq {key : Bytes} (hkey : IsWord key) (hlen : key.length < 62)
    (h : IsDocument v t) :
    jsonExtractString t key acManifestStrLen = (firstString v key).map stored := by
  rw [jsonExtractString_document hkey hlen _ h, firstString, List.map_findSome?]
  congr 1
  funext e
  rw [Function.comp_apply, hit, hit, stringField_eq]
  split_ifs <;> rfl

/-- A letter does not stand right after a string. -/
lemma isWord_of_head {key rest : Bytes} {c : UInt8} (hkey : key = c :: rest) (hc : ¬ IsDelim c)
    (hquote : 34 ∉ key) (hback : 92 ∉ key) : IsWord key := by
  refine ⟨?_, hquote, hback, ?_⟩
  · rw [hkey]
    exact List.cons_ne_nil c rest
  · intro b hb
    rw [hkey] at hb
    cases hb
    exact hc

lemma isWord_name : IsWord (bytes "name") :=
  isWord_of_head rfl (by decide) (by decide) (by decide)

lemma isWord_libraryPath : IsWord (bytes "library_path") :=
  isWord_of_head rfl (by decide) (by decide) (by decide)

lemma isWord_disableEnvironment : IsWord (bytes "disable_environment") :=
  isWord_of_head rfl (by decide) (by decide) (by decide)

/-- `json_extract_disable_env` looks at the first string of the document that reads as the name. -/
lemma jsonExtractDisableEnv_document (outsz : ℕ) (h : IsDocument v t) :
    jsonExtractDisableEnv t outsz =
      (v.strings.findSome? (hit (bytes "disable_environment")
        fun e => some (firstKeyField outsz e))).join := by
  rw [← search_document isWord_disableEnvironment (tells_firstKeyField outsz) h,
    search_some (by simp [quote]), jsonExtractDisableEnv]
  cases memmem (quote (bytes "disable_environment")) t <;> rfl

end

/-- The first key in the object of the first string that reads as `disable_environment`, if this is
the key of an object. -/
def firstDisableKey (doc : Value) : Option Str :=
  ((doc.strings.find? fun e => Reads (bytes "disable_environment") e.1).bind (·.2)).bind firstKey

lemma findSome_hit_some {α : Type} (k : Bytes) (what : Option Value → α) (es : List Entry) :
    es.findSome? (hit k fun e => some (what e)) =
      (es.find? fun e => Reads k e.1).map fun e => what e.2 := by
  induction es with
  | nil => rfl
  | cons e es ih =>
    rw [List.findSome?_cons, List.find?_cons, ih, hit]
    by_cases hreads : Reads k e.1 <;> simp [hreads]

lemma jsonExtractDisableEnv_eq {v : Value} {t : Bytes} (h : IsDocument v t) :
    jsonExtractDisableEnv t acManifestStrLen = (firstDisableKey v).map stored := by
  rw [jsonExtractDisableEnv_document _ h, findSome_hit_some, firstDisableKey]
  cases v.strings.find? fun e => Reads (bytes "disable_environment") e.1 <;> rfl

/-! ### The layer of a manifest -/

/-- The document of a manifest and the object in it that describes the layer, with the strings
before and after this object. -/
structure Manifest where
  doc : Value
  layer : List Member
  before : List Entry
  after : List Entry
  place : Occurs layer doc before after

/-- The manifest of a document that has the layer for a member. -/
def Manifest.ofMember (front : List Member) (k : Str) (layer back : List Member) : Manifest :=
  ⟨.obj (front ++ (k, .obj layer) :: back), layer, _, _, .member k front back .here⟩

namespace Manifest

variable (m : Manifest)

/-- The strings of the document that come before the member of the layer, or all of them if the
layer has no such member. -/
def ahead (name : Bytes) : List Entry :=
  m.before ++ memberStrings (m.layer.takeWhile (·.1.value ≠ name)) ++
    if (get? m.layer name).isSome then [] else m.after

/-- The member of the layer is the first in the document that reads as the name, of those that are
looked at, and its key is written without escapes. -/
structure Leads (name : Bytes) (looked : Option Value → Prop) : Prop where
  ahead : ∀ e ∈ m.ahead name, Reads name e.1 → ¬ looked e.2
  plain : ∀ e ∈ m.layer, e.1.value = name → e.1.text = name

/-- The string that the layer has for a member. -/
def ownString (name : Bytes) : Option Str := (get? m.layer name).bind fun v => asString (some v)

/-- The key that names the variable, the first one in `disable_environment`. -/
def disableKey : Option Str := (get? m.layer (bytes "disable_environment")).bind firstKey

/-- The variable that disables the layer, empty if there is none. -/
def disableVar : Bytes := (m.disableKey.map Str.value).getD []

variable {m} {name : Bytes} {v : Value} {looked : Option Value → Prop}

lemma strings_eq_of_get (h : get? m.layer name = some v) :
    ∃ k rest, (k, v) ∈ m.layer ∧ k.value = name ∧
      m.doc.strings = m.ahead name ++ (k, some v) :: rest := by
  obtain ⟨⟨k, v⟩, hfind, rfl⟩ := Option.map_eq_some_iff.mp h
  obtain ⟨hname, front, back, hlayer, hfront⟩ := List.find?_eq_some_iff_append.mp hfind
  have hk : k.value = name := by simpa using hname
  have htake : m.layer.takeWhile (·.1.value ≠ name) = front := by
    rw [hlayer, List.takeWhile_append_of_pos]
    · simp [hk]
    · simpa using hfront
  refine ⟨k, v.strings ++ memberStrings back ++ m.after, ?_, hk, ?_⟩
  · rw [hlayer]
    simp
  · rw [m.place.strings_eq, ahead, htake, h, hlayer]
    simp [memberStrings]

lemma strings_eq_of_get_none (h : get? m.layer name = none) : m.doc.strings = m.ahead name := by
  have hall : m.layer.takeWhile (·.1.value ≠ name) = m.layer := by
    rw [List.takeWhile_eq_self_iff]
    simpa [get?] using h
  rw [m.place.strings_eq, ahead, hall, h]
  rfl

/-- What is looked up in the whole document is what the layer says. -/
lemma Leads.findSome_eq (h : m.Leads name looked) {α : Type} (what : Option Value → Option α)
    (hlooked : ∀ e, ¬ looked e → what e = none)
    (hget : ∀ v, get? m.layer name = some v → (what (some v)).isSome) :
    m.doc.strings.findSome? (hit name what) =
      (get? m.layer name).bind fun v => what (some v) := by
  have hahead : (m.ahead name).findSome? (hit name what) = none := by
    rw [List.findSome?_eq_none_iff]
    intro e he
    rw [hit]
    split_ifs with hreads
    · exact hlooked _ (h.ahead e he hreads)
    · rfl
  cases hv : get? m.layer name with
  | none =>
    rw [strings_eq_of_get_none hv, hahead]
    rfl
  | some v =>
    obtain ⟨k, rest, hmem, hk, hstrings⟩ := strings_eq_of_get hv
    have hreads : Reads name k := reads_of_text_eq (h.plain _ hmem hk)
    obtain ⟨a, ha⟩ := Option.isSome_iff_exists.mp (hget v hv)
    rw [hstrings, List.findSome?_append, hahead, Option.none_or,
      List.findSome?_cons_of_isSome (by simp [hit, hreads, ha])]
    simp [hit, hreads, ha]

/-- A string without escapes that fits a field. -/
structure Fits (s : Str) : Prop where
  escapeFree : 92 ∉ s.text
  length_lt : s.text.length < acManifestStrLen

variable (m) in
/-- What the daemon takes from the document is the layer's own, and it reads the name of the
variable as it is. -/
structure Clear : Prop where
  name : m.Leads (bytes "name") fun e => (asString e).isSome
  libraryPath : m.Leads (bytes "library_path") fun e => (asString e).isSome
  disable : m.Leads (bytes "disable_environment") fun _ => True
  var : ∀ k ∈ m.disableKey, copied k = k.value ∧ k.value.length < acManifestStrLen

variable (m) in
/-- What comes first in the document says the same as the layer's own object. -/
structure Agrees : Prop where
  name : (firstString m.doc (bytes "name")).map stored =
    (m.ownString (bytes "name")).map Str.value
  libraryPath : (firstString m.doc (bytes "library_path")).map stored =
    (m.ownString (bytes "library_path")).map Str.value
  disable : ((firstDisableKey m.doc).map stored).getD [] = m.disableVar

variable {text : Bytes} {s libraryPath : Str}

/-- The fields of the layer are those that its own object has exactly if nothing else in the
document says otherwise. -/
lemma manifestLayer_eq_iff (htext : IsDocument m.doc text)
    (hname : m.ownString (bytes "name") = some s)
    (hpath : m.ownString (bytes "library_path") = some libraryPath) :
    manifestLayer text = some ⟨s.value, libraryPath.value, m.disableVar⟩ ↔ m.Agrees := by
  rw [manifestLayer, jsonExtractString_eq isWord_name (by decide) htext,
    jsonExtractString_eq isWord_libraryPath (by decide) htext, jsonExtractDisableEnv_eq htext]
  constructor
  · intro h
    obtain ⟨n, hn, h⟩ := Option.bind_eq_some_iff.mp h
    obtain ⟨p, hp, h⟩ := Option.map_eq_some_iff.mp h
    rw [AcImplicitLayer.mk.injEq] at h
    exact ⟨by rw [hn, hname, h.1, Option.map_some], by rw [hp, hpath, h.2.1, Option.map_some],
      h.2.2⟩
  · intro h
    rw [h.name, h.libraryPath, h.disable, hname, hpath]
    rfl

lemma Leads.firstString_eq (h : m.Leads name fun e => (asString e).isSome)
    (hget : get? m.layer name = some (.str s)) : firstString m.doc name = some s := by
  have hother : ∀ e, ¬ (asString e).isSome → asString e = none := fun e he =>
    Option.not_isSome_iff_eq_none.mp he
  have hown : ∀ v, get? m.layer name = some v → (asString (some v)).isSome := by
    intro v hv
    cases hget.symm.trans hv
    rfl
  rw [firstString, h.findSome_eq _ hother hown, hget]
  rfl

lemma Fits.stored_eq (h : Fits s) : stored s = s.value := by
  rw [stored, copied_eq_text h.escapeFree,
    List.take_of_length_le (Nat.le_sub_one_of_lt h.length_lt), Str.value_eq_text h.escapeFree]

lemma Clear.firstDisableKey_eq (h : m.Clear) : firstDisableKey m.doc = m.disableKey := by
  have hfind := h.disable.findSome_eq (fun e => some (e.bind firstKey))
    (fun _ he => absurd trivial he) (fun _ _ => rfl)
  rw [findSome_hit_some] at hfind
  rw [firstDisableKey, disableKey]
  cases hget : get? m.layer (bytes "disable_environment") <;>
    cases hfirst : m.doc.strings.find? fun e => Reads (bytes "disable_environment") e.1 <;>
    simp_all

/-- With its own members first, the layer is what the document says. -/
lemma Clear.agrees (h : m.Clear) (hname : get? m.layer (bytes "name") = some (.str s))
    (hs : Fits s) (hpath : get? m.layer (bytes "library_path") = some (.str libraryPath))
    (hp : Fits libraryPath) : m.Agrees where
  name := by
    rw [h.name.firstString_eq hname, Option.map_some, hs.stored_eq, ownString, hname]
    rfl
  libraryPath := by
    rw [h.libraryPath.firstString_eq hpath, Option.map_some, hp.stored_eq, ownString, hpath]
    rfl
  disable := by
    rw [h.firstDisableKey_eq, disableVar]
    cases hk : m.disableKey with
    | none => rfl
    | some k =>
      obtain ⟨hcopied, hlen⟩ := h.var k hk
      rw [Option.map_some, Option.map_some, stored, hcopied,
        List.take_of_length_le (Nat.le_sub_one_of_lt hlen)]

end Manifest

end Anticheat.Periodic
