import Anticheat.Report.Body
import Anticheat.Server.Storable

/-!
# Reports are accepted

The body that the daemon makes and the server that reads it: whatever bytes are in the detail, the
server takes the report, with all other fields as the daemon meant them and the detail as the text
of the bytes that were escaped.
-/

namespace Anticheat.Report

open CText Server
open Json (Text Value Number scanString scanMember scanOnce)

/-! ### Strings and numbers of the body -/

lemma hex4_control {b : UInt8} (hb : b < 0x20) :
    Json.hex4 48 48 (hexDigit (b.toNat / 16)).toNat (hexDigit (b.toNat % 16)).toNat =
      some b.toNat := by
  have hall : ∀ n : Fin 32, Json.hex4 48 48 (hexDigit (n / 16)).toNat (hexDigit (n % 16)).toNat =
      some n.1 := by decide
  exact hall ⟨b.toNat, UInt8.lt_iff_toNat_lt.mp hb⟩

/-- The escape of a code point is read as the code point. -/
lemma escapes_escapeChar (c : ℕ) : Json.Escapes escapeChar c := by
  by_cases hc : c < 0x80
  · obtain ⟨b, rfl⟩ : ∃ b : UInt8, b.toNat = c :=
      ⟨UInt8.ofNat c, by simp; omega⟩
    unfold Json.Escapes
    rw [escapeChar_ascii hc]
    unfold escapeByte
    split_ifs with h1 h2 h3 h4 h5 h6
    · exact ⟨false, fun t => by rw [h1]; rfl⟩
    · exact ⟨false, fun t => by rw [h2]; rfl⟩
    · exact ⟨false, fun t => by rw [h3]; rfl⟩
    · exact ⟨false, fun t => by rw [h4]; rfl⟩
    · exact ⟨false, fun t => by rw [h5]; rfl⟩
    · refine ⟨true, fun t => ?_⟩
      have hhex := hex4_control h6
      simp only [List.map_cons, List.map_nil, List.cons_append, List.nil_append]
      change Json.scanUnits (92 :: 117 :: 48 :: 48 :: _) = _
      rw [Json.scanUnits, hhex]
    · have hne : ∀ k : UInt8, b ≠ k → b.toNat ≠ k.toNat :=
        fun k h heq => h (UInt8.toNat_inj.mp heq)
      exact Json.escapes_self (UInt8.le_iff_toNat_le.mp (UInt8.not_lt.mp h6)) (hne 34 h1)
        (hne 92 h2)
  · have hc := Nat.le_of_not_lt hc
    unfold Json.Escapes
    rw [escapeChar_wide hc]
    exact Json.escapes_self (by omega) (by omega) (by omega)

/-- The text of a string is read from the text of its escaped bytes. -/
lemma scanString_escaped (l : Bytes) (t : Text) :
    scanString ((Utf8.decode l).flatMap escapeChar ++ 34 :: t) = .ok (Utf8.decode l, t) := by
  refine Json.scanString_flatMap (fun c _ => escapes_escapeChar c) fun c hc => ?_
  have hno := Utf8.not_surrogate_of_mem_decodeFrom hc
  simp only [Json.isHigh, Bool.and_eq_false_iff, decide_eq_false_iff_not]
  omega

/-- A plain byte as a character of a string. -/
lemma Plain.char {b : UInt8} (h : Plain b) :
    32 ≤ b.toNat ∧ b.toNat ≠ 34 ∧ b.toNat ≠ 92 ∧ Json.isHigh b.toNat = false := by
  have hne : ∀ k : UInt8, b ≠ k → b.toNat ≠ k.toNat := fun k h heq => h (UInt8.toNat_inj.mp heq)
  refine ⟨UInt8.le_iff_toNat_le.mp h.1, hne 34 h.2.1, hne 92 h.2.2, ?_⟩
  have := b.toNat_lt
  simp only [Json.isHigh, Bool.and_eq_false_iff, decide_eq_false_iff_not]
  omega

lemma scanString_bytes {l : Bytes} (hl : ∀ b ∈ l, Plain b) (t : Text) :
    scanString (l.map UInt8.toNat ++ 34 :: t) = .ok (l.map UInt8.toNat, t) := by
  refine Json.scanString_plain fun c hc => ?_
  obtain ⟨b, hb, rfl⟩ := List.mem_map.mp hc
  exact (hl b hb).char

/-- The text of a printed number. -/
lemma map_printDec (z : ℤ) : (printDec z).map UInt8.toNat =
    (if decide (z < 0) then [45] else []) ++ (baseDigits 10 z.natAbs).map (48 + ·) := by
  have hdigits : (baseDigits 10 z.natAbs).map (UInt8.toNat ∘ fun d => UInt8.ofNat (48 + d)) =
      (baseDigits 10 z.natAbs).map (48 + ·) := by
    refine List.map_congr_left fun d hd => ?_
    have : d < 10 := lt_of_mem_baseDigits (by decide) hd
    simp only [Function.comp_apply, UInt8.toNat_ofNat']
    omega
  rw [printDec, List.map_append, List.map_map, hdigits]
  by_cases hz : z < 0
  · simp [hz]
  · simp [hz]

/-- It starts with a digit, or with a sign and a digit. -/
lemma map_printDec_eq_cons (z : ℤ) : ∃ c l, (printDec z).map UInt8.toNat = c :: l ∧
    (Json.isDigit c = true ∨ c = 45 ∧ ∃ d l', l = d :: l' ∧ Json.isDigit d = true) := by
  obtain ⟨d, ds, hds⟩ := List.exists_cons_of_ne_nil (baseDigits_ne_nil 10 z.natAbs)
  have hd : d < 10 := lt_of_mem_baseDigits (by decide) (hds ▸ List.mem_cons_self)
  have hdigit : Json.isDigit (48 + d) = true := by
    simp [Json.isDigit]
    omega
  rw [map_printDec, hds]
  by_cases hz : z < 0
  · exact ⟨45, _, by simp [hz]; rfl, .inr ⟨rfl, 48 + d, _, rfl, hdigit⟩⟩
  · exact ⟨48 + d, _, by simp [hz]; rfl, .inl hdigit⟩

lemma skipWs_printDec (z : ℤ) (t : Text) :
    Json.skipWs ((printDec z).map UInt8.toNat ++ t) = (printDec z).map UInt8.toNat ++ t := by
  obtain ⟨c, l, heq, hc⟩ := map_printDec_eq_cons z
  refine Json.skipWs_eq fun c' hc' => ?_
  rw [heq] at hc'
  obtain rfl : c = c' := Option.some.inj hc'
  rcases hc with hc | ⟨rfl, -⟩
  · simp only [Json.isDigit, Bool.and_eq_true, decide_eq_true_eq] at hc
    simp only [Json.isWs, Bool.or_eq_false_iff, decide_eq_false_iff_not]
    omega
  · rfl

/-- A printed number is read back. -/
lemma scanOnce_printDec (depth : ℕ) (z : ℤ) {t : Text} (ht : Json.EndsNumber t) :
    scanOnce depth ((printDec z).map UInt8.toNat ++ t) = .ok (.num (.int z), t) := by
  have hlead : baseDigits 10 z.natAbs = [0] ∨ ∀ d ∈ (baseDigits 10 z.natAbs).head?, d ≠ 0 := by
    by_cases hz : z.natAbs = 0
    · exact .inl (by rw [baseDigits, if_pos hz])
    · exact .inr (head_baseDigits hz)
  have hscan := Json.scanNumber_int (decide (z < 0))
    (fun d hd => lt_of_mem_baseDigits (b := 10) (n := z.natAbs) (by decide) hd)
    (baseDigits_ne_nil 10 z.natAbs) hlead ht
  have hval : (if decide (z < 0) = true then -((z.natAbs : ℕ) : ℤ) else ((z.natAbs : ℕ) : ℤ)) =
      z := by
    by_cases hz : z < 0
    · simp only [hz, decide_true, if_true]
      omega
    · simp only [hz, decide_false, Bool.false_eq_true, if_false]
      omega
  rw [foldl_baseDigits, hval, ← map_printDec] at hscan
  obtain ⟨c, l, heq, hc⟩ := map_printDec_eq_cons z
  rw [heq, List.cons_append] at hscan ⊢
  refine Json.scanOnce_num depth ?_ ?_ hscan
  · intro c' hc'
    obtain rfl : c = c' := Option.some.inj hc'
    exact hc.imp id And.left
  · rintro t' h
    obtain ⟨rfl, hl⟩ := List.cons.inj h
    rcases hc with hc | ⟨-, d, l', rfl, hd⟩
    · exact absurd hc (by decide)
    · obtain ⟨rfl, -⟩ := List.cons.inj hl
      exact absurd hd (by decide)

/-! ### The body as text -/

/-- The members of the body, as the server reads them. -/
def members (clientId eventType detail : Text) (ts : ℤ) : List (Text × Value) :=
  [(text "client_id", .str clientId), (text "event_type", .str eventType),
    (text "detail", .str detail), (text "ts", .num (.int ts))]

/-- A member with a text, the quotes and the colon included. -/
def memberText (name value : Text) (t : Text) : Text :=
  34 :: (name ++ 34 :: 58 :: 34 :: (value ++ 34 :: t))

lemma scanMember_text {name value v t : Text} (depth : ℕ)
    (hname : ∀ u, scanString (name ++ 34 :: u) = .ok (name, u))
    (hvalue : ∀ u, scanString (value ++ 34 :: u) = .ok (v, u)) :
    scanMember (scanOnce depth) (memberText name value t) = .ok ((name, .str v), t) :=
  Json.scanMember_eq (hname _) (Json.scanOnce_str depth (hvalue t))

/-- The text of the body: what the escaped bytes of the detail stand for is read as the detail, and
nothing else depends on them. -/
lemma loads_body (depth : ℕ) {clientId eventType : Bytes} (detail : Bytes) (ts : ℤ)
    (hid : ∀ b ∈ clientId, Plain b) (hev : ∀ b ∈ eventType, Plain b) :
    Json.loads depth (123 :: memberText (text "client_id") (clientId.map UInt8.toNat)
      (44 :: memberText (text "event_type") (eventType.map UInt8.toNat)
        (44 :: memberText (text "detail") ((Utf8.decode detail).flatMap escapeChar)
          (44 :: 34 :: (text "ts" ++ 34 :: 58 :: ((printDec ts).map UInt8.toNat ++ [125])))))) =
      .ok (.obj (members (clientId.map UInt8.toNat) (eventType.map UInt8.toNat)
        (Utf8.decode detail) ts)) := by
  have hname : ∀ name ∈ ["client_id", "event_type", "detail", "ts"], ∀ u,
      scanString (text name ++ 34 :: u) = .ok (text name, u) := by
    intro name hname u
    refine Json.scanString_plain ?_
    revert name
    decide
  have hend : Json.EndsNumber [125] := by
    intro c hc
    rw [← Option.some.inj hc]
    decide
  have hws : Json.skipWs ((printDec ts).map UInt8.toNat ++ [125]) =
      (printDec ts).map UInt8.toNat ++ [125] := skipWs_printDec ts [125]
  have hts := Json.scanMember_eq (hname "ts" (by simp) _)
    ((congrArg (scanOnce depth) hws).trans (scanOnce_printDec depth ts hend))
  have hmember : ∀ name ∈ ["client_id", "event_type", "detail", "ts"], ∀ value v t,
      (∀ u, scanString (value ++ 34 :: u) = .ok (v, u)) →
      scanMember (scanOnce depth) (memberText (text name) value t) = .ok ((text name, .str v), t) :=
    fun name hn value v t hv => scanMember_text depth (hname name hn) hv
  -- one member after the other, the last one up to the brace
  refine Json.loads_object rfl (by decide) ?_
  generalize hfuel : List.length _ + 2 = fuel
  obtain ⟨n, rfl⟩ : ∃ n, fuel = n + 4 := by
    simp only [List.length_append, List.length_cons] at hfuel
    exact ⟨fuel - 4, by omega⟩
  change Json.items _ _ _ (memberText _ _ _) = _
  rw [Json.items_comma (hmember "client_id" (by simp) _ _ _ (scanString_bytes hid)) (by decide)]
  change (Json.items _ _ _ (memberText _ _ _)).map _ = _
  rw [Json.items_comma (hmember "event_type" (by simp) _ _ _ (scanString_bytes hev)) (by decide)]
  change ((Json.items _ _ _ (memberText _ _ _)).map _).map _ = _
  rw [Json.items_comma (hmember "detail" (by simp) _ _ _ (scanString_escaped detail)) (by decide)]
  change (((Json.items _ _ _ (34 :: _)).map _).map _).map _ = _
  rw [Json.items_close hts rfl]
  rfl

/-- Bytes that are ASCII, the text of which is their own. -/
lemma Plain.ascii_of_clientIdRe {clientId : Bytes}
    (h : clientIdRe (clientId.map UInt8.toNat) = true) :
    ∀ b ∈ clientId, Plain b ∧ b.toNat < 0x80 := by
  intro b hb
  simp only [clientIdRe, Bool.and_eq_true, List.all_eq_true] at h
  have hc := h.1.1 b.toNat (List.mem_map_of_mem hb)
  simp only [Bool.or_eq_true, Bool.and_eq_true, decide_eq_true_eq] at hc
  refine ⟨⟨UInt8.le_iff_toNat_le.mpr ?_, ?_, ?_⟩, by omega⟩
  · change 32 ≤ b.toNat
    omega
  · rintro rfl
    revert hc
    decide
  · rintro rfl
    revert hc
    decide

lemma length_of_clientIdRe {clientId : Bytes} (h : clientIdRe (clientId.map UInt8.toNat) = true) :
    clientId.length ≤ 128 := by
  simp only [clientIdRe, Bool.and_eq_true, decide_eq_true_eq, List.length_map] at h
  exact h.2

lemma EventType.length_name (e : EventType) : e.name.length ≤ 8 := by
  cases e <;> decide

lemma EventType.plain (e : EventType) : ∀ b ∈ e.name, Plain b ∧ b.toNat < 0x80 := by
  unfold Plain
  cases e <;> decide +kernel

lemma printDec_ascii (z : ℤ) : ∀ b ∈ printDec z, b.toNat < 0x80 := by
  intro b hb
  have hmem : b.toNat ∈ (printDec z).map UInt8.toNat := List.mem_map_of_mem hb
  rw [map_printDec, List.mem_append] at hmem
  rcases hmem with hsign | hdigit
  · split_ifs at hsign
    · rw [List.mem_singleton.mp hsign]
      decide
    · cases hsign
  · obtain ⟨d, hd, heq⟩ := List.mem_map.mp hdigit
    have : d < 10 := lt_of_mem_baseDigits (by decide) hd
    omega

/-- The bytes of the body. -/
def bodyBytes (clientId eventType escaped : Bytes) (ts : ℤ) : Bytes :=
  bytes "\x7b\"client_id\":\"" ++ clientId ++ bytes "\",\"event_type\":\"" ++ eventType ++
    bytes "\",\"detail\":\"" ++ escaped ++ bytes "\",\"ts\":" ++ printDec ts ++ bytes "\x7d"

lemma decode_bodyBytes {clientId eventType : Bytes} (detail : Bytes) (ts : ℤ)
    (hid : ∀ b ∈ clientId, b.toNat < 0x80) (hev : ∀ b ∈ eventType, b.toNat < 0x80) :
    Utf8.decode (bodyBytes clientId eventType (detail.flatMap escapeByte) ts) =
      123 :: memberText (text "client_id") (clientId.map UInt8.toNat)
      (44 :: memberText (text "event_type") (eventType.map UInt8.toNat)
        (44 :: memberText (text "detail") ((Utf8.decode detail).flatMap escapeChar)
          (44 :: 34 :: (text "ts" ++ 34 :: 58 :: ((printDec ts).map UInt8.toNat ++ [125]))))) := by
  have hstart : ∀ b ∈ bytes "\x7b\"client_id\":\"" ++ clientId ++ bytes "\",\"event_type\":\"" ++
      eventType ++ bytes "\",\"detail\":\"", b.toNat < 0x80 := by
    simp only [List.forall_mem_append]
    exact ⟨⟨⟨⟨by decide +kernel, hid⟩, by decide +kernel⟩, hev⟩, by decide +kernel⟩
  have hend : ∀ b ∈ (bytes "\",\"ts\":").tail ++ printDec ts ++ bytes "\x7d", b.toNat < 0x80 := by
    simp only [List.forall_mem_append]
    exact ⟨⟨by decide +kernel, printDec_ascii ts⟩, by decide +kernel⟩
  have hsplit : bodyBytes clientId eventType (detail.flatMap escapeByte) ts =
      (bytes "\x7b\"client_id\":\"" ++ clientId ++ bytes "\",\"event_type\":\"" ++ eventType ++
        bytes "\",\"detail\":\"") ++ (detail.flatMap escapeByte ++
        34 :: ((bytes "\",\"ts\":").tail ++ printDec ts ++ bytes "\x7d")) := by
    have hquote : bytes "\",\"ts\":" = 34 :: (bytes "\",\"ts\":").tail := by decide
    rw [bodyBytes, hquote]
    simp
  rw [hsplit, Utf8.decode_ascii_append hstart, Utf8.decode,
    Utf8.decodeFrom_append_ascii (by decide), decodeFrom_flatMap, Utf8.decode_ascii hend]
  have hid' : (bytes "\x7b\"client_id\":\"").map UInt8.toNat =
      123 :: 34 :: (text "client_id" ++ [34, 58, 34]) := by decide
  have hev' : (bytes "\",\"event_type\":\"").map UInt8.toNat =
      34 :: 44 :: 34 :: (text "event_type" ++ [34, 58, 34]) := by decide
  have hdetail : (bytes "\",\"detail\":\"").map UInt8.toNat =
      34 :: 44 :: 34 :: (text "detail" ++ [34, 58, 34]) := by decide
  have hts : (bytes "\",\"ts\":").tail.map UInt8.toNat =
      44 :: 34 :: (text "ts" ++ [34, 58]) := by decide
  have hbrace : (bytes "\x7d").map UInt8.toNat = [125] := by decide
  simp only [List.map_append, hid', hev', hdetail, hts, hbrace, memberText, Utf8.decode,
    List.append_assoc, List.cons_append, List.nil_append]
  rfl

/-! ### The request -/

/-- The request that the server gets for a body. -/
@[simps] def sent (body : Bytes) : Request :=
  ⟨none, [(printDec body.length).map UInt8.toNat], body⟩

lemma dropWhile_eq_self {p : ℕ → Bool} {l : Text} (hl : ∀ c ∈ l.head?, p c = false) :
    l.dropWhile p = l := by
  cases l with
  | nil => rfl
  | cons c l => simp [hl c rfl]

/-- `strip` of a text without blanks. -/
lemma strip_eq_self {p : ℕ → Bool} {l : Text} (hl : ∀ c ∈ l, p c = false) :
    ((l.dropWhile p).reverse.dropWhile p).reverse = l := by
  rw [dropWhile_eq_self fun c hc => hl c (List.mem_of_mem_head? hc), dropWhile_eq_self,
    List.reverse_reverse]
  exact fun c hc => hl c (List.mem_reverse.mp (List.mem_of_mem_head? hc))

lemma isDigit_of_mem_baseDigits {n c : ℕ} (hc : c ∈ (baseDigits 10 n).map (48 + ·)) :
    Json.isDigit c = true := by
  obtain ⟨d, hd, rfl⟩ := List.mem_map.mp hc
  have hlt : d < 10 := lt_of_mem_baseDigits (by decide) hd
  simp only [Json.isDigit, Bool.and_eq_true, decide_eq_true_eq]
  omega

/-- The length of the body is read back from its header. -/
lemma parseContentLength_printDec {n : ℕ} (hn : 0 < n) (hlt : n < 10 ^ 4) :
    parseContentLength ((printDec n).map UInt8.toNat) = some n := by
  have hmap := map_printDec (n : ℤ)
  have hneg : ¬ (n : ℤ) < 0 := by omega
  simp only [hneg, decide_false, Bool.false_eq_true, if_false, List.nil_append,
    Int.natAbs_natCast] at hmap
  rw [hmap]
  have hblank : ∀ c ∈ (baseDigits 10 n).map (48 + ·), (c = 32 || c = 9 : Bool) = false := by
    intro c hc
    have hdigit := isDigit_of_mem_baseDigits hc
    simp only [Json.isDigit, Bool.and_eq_true, decide_eq_true_eq] at hdigit
    simp only [Bool.or_eq_false_iff, decide_eq_false_iff_not]
    omega
  have hzeros : ((baseDigits 10 n).map (48 + ·)).dropWhile (· = 48) =
      (baseDigits 10 n).map (48 + ·) := by
    refine dropWhile_eq_self fun c hc => ?_
    rw [List.head?_map, Option.mem_map] at hc
    obtain ⟨d, hd, rfl⟩ := hc
    simpa using head_baseDigits (Nat.ne_of_gt hn) d hd
  have hall : ((baseDigits 10 n).map (48 + ·)).all Json.isDigit = true :=
    List.all_eq_true.mpr fun c hc => isDigit_of_mem_baseDigits hc
  have hne : (baseDigits 10 n).map (48 + ·) ≠ [] := by simpa using baseDigits_ne_nil 10 n
  have hlen : (baseDigits 10 n).length ≤ 4 := length_baseDigits_le (by decide) (by decide) hlt
  simp only [parseContentLength, strip_eq_self hblank, hne, hall, hzeros, not_true_eq_false,
    or_self, if_false, List.length_map, Nat.not_lt.mpr hlen, Json.digitsVal_map, foldl_baseDigits]

/-- The body fits its buffer. -/
lemma length_bodyBytes {clientId eventType escaped : Bytes} {ts : ℤ} (hid : clientId.length ≤ 128)
    (hev : eventType.length ≤ 8) (hesc : escaped.length < 600)
    (hts : -2 ^ 63 ≤ ts ∧ ts < 2 ^ 63) :
    0 < (bodyBytes clientId eventType escaped ts).length ∧
      (bodyBytes clientId eventType escaped ts).length < 1024 := by
  have hdigits : (baseDigits 10 ts.natAbs).length ≤ 19 :=
    length_baseDigits_le (by decide) (by decide) (by omega)
  have hdec : (printDec ts).length ≤ 20 := by
    rw [printDec, List.length_append, List.length_map]
    split_ifs
    · simp only [List.length_singleton]
      omega
    · simp only [List.length_nil]
      omega
  have hfixed : (bytes "\x7b\"client_id\":\"").length = 14 ∧
      (bytes "\",\"event_type\":\"").length = 16 ∧ (bytes "\",\"detail\":\"").length = 12 ∧
      (bytes "\",\"ts\":").length = 7 ∧ (bytes "\x7d").length = 1 := by decide
  simp only [bodyBytes, List.length_append, hfixed]
  omega

/-! ### What the server makes of it -/

section

variable (depth : ℕ) (conn : Conn) (clientId : Bytes) (event : EventType) (detail : Bytes)
  (time : Int64)

/-- The bytes of the report. -/
def reportBytes : Bytes :=
  bodyBytes clientId event.name ((consumed detail 600).flatMap escapeByte) time.toInt

/-- Its members, as the server reads them. -/
def reportMembers : List (Text × Value) :=
  members (clientId.map UInt8.toNat) (event.name.map UInt8.toNat)
    (Utf8.decode (consumed detail 600)) time.toInt

/-- The report that reaches the store. -/
def stored : Store.AddReport :=
  ⟨clientId.map UInt8.toNat, event.name.map UInt8.toNat, Utf8.decode (consumed detail 600),
    some (.int time.toInt), conn.clientIp, conn.now, conn.freelist⟩

variable (hid : clientIdRe (clientId.map UInt8.toNat) = true)

include hid

lemma length_reportBytes : 0 < (reportBytes clientId event detail time).length ∧
    (reportBytes clientId event detail time).length < 1024 := by
  have hescaped : ((consumed detail 600).flatMap escapeByte).length < 600 := by
    rw [← acJsonEscape_eq detail (by decide)]
    exact length_acJsonEscape detail (by decide)
  exact length_bodyBytes (length_of_clientIdRe hid) event.length_name hescaped
    ⟨time.le_toInt, time.toInt_lt⟩

/-- What `ac_report` sends. -/
lemma acReportBody_eq : acReportBody clientId event.name detail time =
    some (reportBytes clientId event detail time) := by
  have hplain := Plain.ascii_of_clientIdRe hid
  have hlen := length_of_clientIdRe hid
  have hev := event.length_name
  rw [acReportBody, acJsonEscape_plain (fun b hb => (hplain b hb).1) (by omega),
    acJsonEscape_plain (fun b hb => (event.plain b hb).1) (by omega),
    acJsonEscape_eq detail (by decide)]
  exact if_pos (length_reportBytes clientId event detail time hid).2

/-- The length that the header gives. -/
lemma parseContentLength_reportBytes :
    parseContentLength ((printDec (reportBytes clientId event detail time).length).map
      UInt8.toNat) = some (reportBytes clientId event detail time).length ∧
    ¬ maxBodyBytes < (reportBytes clientId event detail time).length := by
  obtain ⟨hpos, hlt⟩ := length_reportBytes clientId event detail time hid
  refine ⟨parseContentLength_printDec hpos (Nat.lt_trans hlt (by decide)), ?_⟩
  unfold maxBodyBytes
  omega

/-- What the server reads. -/
lemma readJsonBody_sent : (sent (reportBytes clientId event detail time)).readJsonBody depth =
    .ok (some (.obj (reportMembers clientId event detail time))) := by
  obtain ⟨hlength, hmax⟩ := parseContentLength_reportBytes clientId event detail time hid
  have hpos := (length_reportBytes clientId event detail time hid).1
  have hplain := Plain.ascii_of_clientIdRe hid
  have hdecode := decode_bodyBytes (consumed detail 600) time.toInt (fun b hb => (hplain b hb).2)
    fun b hb => (event.plain b hb).2
  have hloads := loads_body depth (consumed detail 600) time.toInt (fun b hb => (hplain b hb).1)
    fun b hb => (event.plain b hb).1
  rw [← hdecode] at hloads
  simp only [Request.readJsonBody, sent_contentLength, sent_rfile, List.headD_cons, hlength,
    Nat.ne_of_gt hpos, hmax, or_self, if_false, List.take_length]
  rw [reportBytes, hloads]
  rfl

lemma requireBodyClientId_sent :
    (sent (reportBytes clientId event detail time)).requireBodyClientId depth =
      .ok (clientId.map UInt8.toNat, reportMembers clientId event detail time) := by
  obtain ⟨hlength, hmax⟩ := parseContentLength_reportBytes clientId event detail time hid
  have hframing : (sent (reportBytes clientId event detail time)).checkBodyFraming = none := by
    simp [Request.checkBodyFraming, hlength, hmax]
  rw [Request.requireBodyClientId, hframing, readJsonBody_sent depth clientId event detail time hid]
  have hget : Json.get? (reportMembers clientId event detail time) (text "client_id") =
      some (.str (clientId.map UInt8.toNat)) := rfl
  simp only [bind, Except.bind, hget, hid, if_true]
  rfl

/-- The checks of the server let the report through. -/
lemma reportCall_sent : reportCall depth conn (sent (reportBytes clientId event detail time)) =
    .ok (.addReport (stored conn clientId event detail time)) := by
  have hev : textMember (reportMembers clientId event detail time) "event_type" (· ≤ 64) =
      .ok (event.name.map UInt8.toNat) := by
    cases event <;> rfl
  have hdetail : textMember (reportMembers clientId event detail time) "detail" (· ≤ 2000) =
      .ok (Utf8.decode (consumed detail 600)) := by
    have hget : Json.get? (reportMembers clientId event detail time) (text "detail") =
        some (.str (Utf8.decode (consumed detail 600))) := rfl
    have hlen : (Utf8.decode (consumed detail 600)).length ≤ 2000 := by
      have hdecode := Utf8.length_decode_le (consumed detail 600)
      have hconsumed := length_consumed detail (show 0 < 600 by decide)
      omega
    simp [textMember, hget, hlen]
  have hts : tsMember (reportMembers clientId event detail time) = .ok (some (.int time.toInt)) :=
    rfl
  simp only [reportCall, requireBodyClientId_sent depth clientId event detail time hid, bind,
    Except.bind, hev, hdetail, hts]
  rfl

/-- The database takes all of its values. -/
lemma bind_stored : ∀ p ∈ (StoreCall.addReport (stored conn clientId event detail time)).params,
    p.bind = .ok () := by
  have htext : (Utf8.decode (consumed detail 600)).any isSurrogate = false := by
    rw [List.any_eq_false]
    intro c hc
    simpa [isSurrogate] using Utf8.not_surrogate_of_mem_decodeFrom hc
  have hev : (event.name.map UInt8.toNat).any isSurrogate = false := by cases event <;> decide
  simp only [StoreCall.params, stored, List.forall_mem_cons, bind_text, bind_int, htext, hev,
    not_isSurrogate_of_clientIdRe hid, conn.clientIp_ok, conn.now_ok, time.le_toInt,
    time.toInt_lt]
  simp

end

/-- For every client id that the server takes, every type of event and every string as the detail,
`ac_report` makes a body that the server reads and accepts; what reaches the store is the client id,
the type and the time that were meant, and as the detail the text of the longest start of the string
that `ac_json_escape` has room for. -/
theorem acReport_accepted (depth : ℕ) (conn : Conn) (clientId : Bytes)
    (hid : clientIdRe (clientId.map UInt8.toNat) = true) (event : EventType) (detail : Bytes)
    (hdetail : 0 ∉ detail) (time : Int64) :
    ∃ body, acReportBody clientId event.name detail time = some body ∧
      (∃ v, (sent body).readJsonBody depth = .ok (some v)) ∧
      reportCall depth conn (sent body) =
        .ok (.addReport ⟨clientId.map UInt8.toNat, event.name.map UInt8.toNat,
          Utf8.decode (consumed detail 600), some (.int time.toInt), conn.clientIp, conn.now,
          conn.freelist⟩) ∧
      (∃ rest, detail = consumed detail 600 ++ rest ∧
        (rest = [] ∨ 600 ≤ ((consumed detail 600).flatMap escapeByte).length + 7)) ∧
      ∀ st : Store, st.seq < Store.maxRowid → ∃ st',
        st.addReport ⟨clientId.map UInt8.toNat, event.name.map UInt8.toNat,
          Utf8.decode (consumed detail 600), some (.int time.toInt), conn.clientIp, conn.now,
          conn.freelist⟩ = .ok (st', conn.now) ∧
        handleReport depth conn st (sent body) = .ok (st', .done 201) := by
  have hcall := reportCall_sent depth conn clientId event detail time hid
  refine ⟨reportBytes clientId event detail time,
    acReportBody_eq clientId event detail time hid,
    ⟨_, readJsonBody_sent depth clientId event detail time hid⟩, hcall, ?_, ?_⟩
  · obtain ⟨rest, hrest, -, -, hstop⟩ := consumed_spec detail 600
    refine ⟨rest, hrest, ?_⟩
    rcases hstop with h | h | h
    · exact .inl h
    · exact absurd (hrest ▸ List.mem_append_right _ (List.mem_of_mem_head? h)) hdetail
    · exact .inr h
  · intro st hseq
    obtain ⟨st', hadd⟩ :=
      StoreCall.addReport_ok hseq (bind_stored conn clientId event detail time hid)
    refine ⟨st', hadd, ?_⟩
    rw [handleReport, hcall]
    simp [answerCall, StoreCall.answer, hadd, bind, Except.bind, pure, Except.pure]

/-- A detail that ends in the middle of a character, right before the closing quote. -/
theorem acReport_accepted_cut :
    ∃ body, acReportBody (bytes "host-1") (bytes "ALERT") [0x22, 0xE2, 0x82] 1700000000 =
        some body ∧
      reportCall 0 localConn (sent body) =
        .ok (.addReport ⟨text "host-1", text "ALERT", [0x22, 0xFFFD], some (.int 1700000000),
          localConn.clientIp, localConn.now, localConn.freelist⟩) := by
  obtain ⟨body, hbody, -, hcall, -⟩ := acReport_accepted 0 localConn (bytes "host-1") (by decide)
    .alert [0x22, 0xE2, 0x82] (by decide) 1700000000
  have hid : (bytes "host-1").map UInt8.toNat = text "host-1" := by decide
  have hev : EventType.alert.name.map UInt8.toNat = text "ALERT" := by decide
  have hdetail : Utf8.decode (consumed [0x22, 0xE2, 0x82] 600) = [0x22, 0xFFFD] := by
    decide +kernel
  rw [hid, hev, hdetail] at hcall
  exact ⟨body, hbody, hcall⟩

end Anticheat.Report
