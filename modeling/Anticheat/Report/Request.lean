import Anticheat.Lib.HttpMessage
import Anticheat.Report.Accepted
import Anticheat.Report.Url

/-!
# The request of a report

What `ac_report` puts together and takes apart besides the body: the id of the client, the warning
for an `https://` address, the text of the request and the status of the answer. An address and a
key without line breaks make a request whose header is read back as it was meant, with the body
behind it.
-/

namespace Anticheat.Report

open CText HttpMessage Server

/-! ### The id of the client -/

/-- Without the line breaks at the end. -/
def stripEol (l : Bytes) : Bytes := (l.reverse.dropWhile fun c => c = 10 || c = 13).reverse

/-- A letter, a digit, a dot, an underscore or a dash. -/
def isIdByte (c : UInt8) : Bool :=
  (65 ≤ c && c ≤ 90) || (97 ≤ c && c ≤ 122) || (48 ≤ c && c ≤ 57) || c = 46 || c = 95 || c = 45

/-- The string that a buffer holds. -/
def cString (buf : Bytes) : Bytes := buf.takeWhile (· ≠ 0)

/-- The line of `/etc/machine-id`, if it can be read and is not empty. -/
def machineIdLine (outsz : ℕ) (machineId : Option Bytes) : Option Bytes := do
  let (line, _) ← fgets outsz (← machineId)
  let id := stripEol (cString line)
  if id = [] then none else some id

/-- The host name with what the server does not take replaced, if it is not empty. -/
def hostnameId (outsz : ℕ) (hostname : Option Bytes) : Option Bytes := do
  let id := (cString ((← hostname).take (outsz - 1))).map fun c => if isIdByte c then c else 95
  if id = [] then none else some id

/-- `ac_report_client_id`: the file and the host name are `none` if they cannot be had. -/
def acReportClientId (machineId hostname : Option Bytes) (outsz : ℕ) : Bytes :=
  match machineIdLine outsz machineId with
  | some id => id
  | none =>
    match hostnameId outsz hostname with
    | some id => id
    | none => (bytes "unknown").take (outsz - 1)

lemma clientIdRe_of_isIdByte {l : Bytes} (hl : ∀ c ∈ l, isIdByte c = true) (hne : l ≠ [])
    (hlen : l.length ≤ 128) : clientIdRe (l.map UInt8.toNat) = true := by
  have hpos := List.length_pos_iff.mpr hne
  simp only [clientIdRe, List.length_map, Bool.and_eq_true, decide_eq_true_eq, List.all_eq_true,
    List.mem_map, forall_exists_index, and_imp, forall_apply_eq_imp_iff₂]
  refine ⟨⟨fun c hc => ?_, hpos⟩, hlen⟩
  have hid := hl c hc
  simp only [isIdByte, Bool.or_eq_true, Bool.and_eq_true, decide_eq_true_eq,
    UInt8.le_iff_toNat_le, ← UInt8.toNat_inj, UInt8.reduceToNat] at hid ⊢
  exact hid

/-- Without a machine id, the id is one that the server takes, whatever the host is called. -/
lemma clientIdRe_acReportClientId {machineId : Option Bytes}
    (h : machineIdLine 128 machineId = none) (hostname : Option Bytes) :
    clientIdRe ((acReportClientId machineId hostname 128).map UInt8.toNat) = true := by
  unfold acReportClientId
  rw [h]
  cases hid : hostnameId 128 hostname with
  | none => decide
  | some id =>
    cases hostname with
    | none => cases hid
    | some name =>
      simp only [hostnameId, bind, Option.bind] at hid
      split_ifs at hid with hne
      cases hid
      refine clientIdRe_of_isIdByte (fun c hc => ?_) hne ?_
      · obtain ⟨b, -, rfl⟩ := List.mem_map.mp hc
        split_ifs with hb
        · exact hb
        · decide
      · rw [List.length_map]
        have hlen : (cString (name.take (128 - 1))).length ≤ (name.take (128 - 1)).length :=
          (List.takeWhile_prefix _).length_le
        rw [List.length_take] at hlen
        omega

/-! ### The warning for `https://` -/

section Remember

variable {α : Type*} [DecidableEq α]

/-- A table of at most `n` elements: whether the element is not in it, and the table after. -/
def remember (n : ℕ) (k : α) (seen : List α) : Bool × List α :=
  if k ∈ seen then (false, seen)
  else (true, if seen.length < n then seen ++ [k] else seen)

/-- Each element once, in the order in which they come up. -/
def firstSeen (keys : List α) : List α :=
  keys.foldl (fun seen k => if k ∈ seen then seen else seen ++ [k]) []

lemma firstSeen_concat (keys : List α) (k : α) :
    firstSeen (keys ++ [k]) =
      if k ∈ firstSeen keys then firstSeen keys else firstSeen keys ++ [k] := by
  rw [firstSeen, List.foldl_append]
  rfl

lemma remember_fst {n : ℕ} {k : α} {seen : List α} : (remember n k seen).1 = true ↔ k ∉ seen := by
  unfold remember
  split_ifs with hk <;> simp [hk]

/-- The table keeps the first `n` elements that come up. -/
lemma remember_take (n : ℕ) (k : α) (seen : List α) :
    (remember n k (seen.take n)).2 = (if k ∈ seen then seen else seen ++ [k]).take n := by
  unfold remember
  by_cases hlen : seen.length < n
  · rw [List.take_of_length_le (Nat.le_of_lt hlen)]
    by_cases hk : k ∈ seen
    · simp [hk, List.take_of_length_le (Nat.le_of_lt hlen)]
    · have hroom : (seen ++ [k]).length ≤ n := by
        rw [List.length_append, List.length_singleton]
        omega
      simp [hk, hlen, List.take_of_length_le hroom]
  · have hfull : ¬ (seen.take n).length < n := by
      rw [List.length_take]
      omega
    have hcut : (seen ++ [k]).take n = seen.take n :=
      List.take_append_of_le_length (Nat.le_of_not_lt hlen)
    simp only [hfull, if_false]
    split_ifs <;> simp [hcut]

end Remember

/-- `HTTPS_WARN_DSTS` -/
def httpsWarnDsts : ℕ := 8

/-- The address is sent to without encryption although it says `https://`. -/
def isDowngrade (r : Bytes × AcReportDest) : Bool :=
  !r.2.isUnix && decide (bytes "https://" <+: r.1)

/-- The destination, as it is remembered. -/
def warnKey (dest : AcReportDest) : Bytes := dest.host ++ [58] ++ dest.port

/-- The end of `ac_report_parse_url`: whether it warns, and the destinations it has warned of. -/
def httpsWarn (url : Bytes) (dest : AcReportDest) (warned : List Bytes) : Bool × List Bytes :=
  if isDowngrade (url, dest) then remember httpsWarnDsts (warnKey dest) warned
  else (false, warned)

/-- The destinations warned of after a sequence of reports. -/
def warnedAfter (rs : List (Bytes × AcReportDest)) : List Bytes :=
  rs.foldl (fun warned r => (httpsWarn r.1 r.2 warned).2) []

/-- The set holds the first eight destinations. -/
lemma warnedAfter_eq (rs : List (Bytes × AcReportDest)) : warnedAfter rs =
    (firstSeen ((rs.filter isDowngrade).map fun r => warnKey r.2)).take httpsWarnDsts := by
  induction rs using List.reverseRecOn with
  | nil => rfl
  | append_singleton rs r ih =>
    have hstep : warnedAfter (rs ++ [r]) = (httpsWarn r.1 r.2 (warnedAfter rs)).2 := by
      simp [warnedAfter]
    rw [hstep, httpsWarn, List.filter_append]
    by_cases hd : isDowngrade r = true
    · rw [List.filter_singleton, hd, cond_true, List.map_append, List.map_singleton,
        firstSeen_concat, ih, if_pos rfl]
      exact remember_take httpsWarnDsts (warnKey r.2) _
    · simp [hd, ih]

/-- A report to an `https://` address is warned of, unless its destination is one of the first eight
that came up: each of these is warned of once, and no destination is ever passed over in silence. -/
theorem httpsWarn_iff (rs : List (Bytes × AcReportDest)) (url : Bytes) (dest : AcReportDest) :
    (httpsWarn url dest (warnedAfter rs)).1 = true ↔ isDowngrade (url, dest) = true ∧
      warnKey dest ∉
        (firstSeen ((rs.filter isDowngrade).map fun r => warnKey r.2)).take httpsWarnDsts := by
  rw [← warnedAfter_eq, httpsWarn]
  by_cases hd : isDowngrade (url, dest) = true
  · rw [if_pos hd, remember_fst]
    exact (and_iff_right hd).symm
  · rw [if_neg hd]
    exact iff_of_false Bool.false_ne_true fun h => hd h.1

/-! ### The text -/

/-- `ac_header_value_safe` -/
def acHeaderValueSafe (s : Bytes) : Bool := (strchr 13 s).isNone && (strchr 10 s).isNone

/-- The request, before it is checked against the size of its buffer. -/
def requestText (host key body : Bytes) : Bytes :=
  bytes "POST /report HTTP/1.1\r\nHost: " ++ host ++ bytes "\r\nAuthorization: Bearer " ++ key ++
    bytes "\r\nContent-Type: application/json\r\nContent-Length: " ++ printDec body.length ++
    bytes "\r\nConnection: close\r\n\r\n" ++ body

lemma acHeaderValueSafe_iff {s : Bytes} : acHeaderValueSafe s = true ↔ OneLine s := by
  simp [acHeaderValueSafe, OneLine, strchr_eq_none]

/-- The fields of the request. -/
def requestFields (host key body : Bytes) : List (Bytes × Bytes) :=
  [(bytes "Host", host), (bytes "Authorization", bytes "Bearer " ++ key),
    (bytes "Content-Type", bytes "application/json"),
    (bytes "Content-Length", printDec body.length), (bytes "Connection", bytes "close")]

lemma requestText_eq_write (host key body : Bytes) :
    requestText host key body =
      write (bytes "POST /report HTTP/1.1") (requestFields host key body) body := by
  have hfirst : bytes "POST /report HTTP/1.1\r\nHost: " =
      bytes "POST /report HTTP/1.1" ++ crlf ++ bytes "Host" ++ [58, 32] := by decide
  have hauth : bytes "\r\nAuthorization: Bearer " =
      crlf ++ bytes "Authorization" ++ [58, 32] ++ bytes "Bearer " := by decide
  have htype : bytes "\r\nContent-Type: application/json\r\nContent-Length: " =
      crlf ++ bytes "Content-Type" ++ [58, 32] ++ bytes "application/json" ++ crlf ++
        bytes "Content-Length" ++ [58, 32] := by decide
  have hlast : bytes "\r\nConnection: close\r\n\r\n" =
      crlf ++ bytes "Connection" ++ [58, 32] ++ bytes "close" ++ crlf ++ crlf := by decide
  rw [requestText, hfirst, hauth, htype, hlast]
  simp only [write, requestFields, writeField, List.flatMap_cons, List.flatMap_nil,
    List.append_assoc, List.append_nil]

/-- A number is written with digits and a sign. -/
lemma le_toNat_of_mem_printDec {z : ℤ} {b : UInt8} (hb : b ∈ printDec z) : 45 ≤ b.toNat := by
  have hmem : b.toNat ∈ (printDec z).map UInt8.toNat := List.mem_map_of_mem hb
  rw [map_printDec, List.mem_append] at hmem
  rcases hmem with hsign | hdigit
  · split_ifs at hsign
    · rw [List.mem_singleton.mp hsign]
    · cases hsign
  · obtain ⟨d, -, heq⟩ := List.mem_map.mp hdigit
    omega

lemma oneLine_printDec (z : ℤ) : OneLine (printDec z) :=
  ⟨fun h => absurd (le_toNat_of_mem_printDec h) (by decide),
    fun h => absurd (le_toNat_of_mem_printDec h) (by decide)⟩

lemma dropWhile_isBlank_printDec (z : ℤ) : (printDec z).dropWhile isBlank = printDec z := by
  cases hz : printDec z with
  | nil => rfl
  | cons b l =>
    have hb := le_toNat_of_mem_printDec (hz ▸ List.mem_cons_self : b ∈ printDec z)
    have hnot : isBlank b = false := by
      simp only [isBlank, Bool.or_eq_false_iff, decide_eq_false_iff_not]
      constructor <;> (rintro rfl; exact absurd hb (by decide))
    rw [List.dropWhile_cons, hnot]
    rfl

/-- The header that a server reads is the one that was meant. -/
lemma read_requestText {host key : Bytes} (hhost : OneLine host) (hkey : OneLine key)
    (body : Bytes) : read (requestText host key body) =
      some ⟨bytes "POST /report HTTP/1.1",
        (requestFields host key body).map fun f => (f.1, f.2.dropWhile isBlank), body⟩ := by
  rw [requestText_eq_write]
  refine read_write (by decide) ?_ body
  have hbearer : OneLine (bytes "Bearer " ++ key) := OneLine.append (by decide) hkey
  simp only [requestFields, List.forall_mem_cons, List.not_mem_nil, false_implies, implies_true,
    and_true]
  exact ⟨writable_mk (by decide) (by decide) hhost,
    writable_mk (by decide) (by decide) hbearer,
    writable_mk (by decide) (by decide) (by decide),
    writable_mk (by decide) (by decide) (oneLine_printDec _),
    writable_mk (by decide) (by decide) (by decide)⟩

/-! ### The status of the answer -/

/-- `ac_http_status_code` -/
def acHttpStatusCode (resp : Bytes) : ℤ :=
  if resp.take 7 ≠ bytes "HTTP/1." then -1
  else
    let p := resp.drop 7
    if !isDigit (p.getD 0 0) then -1
    else if p.getD 1 0 ≠ 32 then -1
    else
      let d := fun i => p.getD (2 + i) 0
      if !isDigit (d 0) || !isDigit (d 1) || !isDigit (d 2) then -1
      else if d 3 ≠ 32 && d 3 ≠ 13 && d 3 ≠ 10 && d 3 ≠ 0 then -1
      else ((d 0).toNat - 48) * 100 + ((d 1).toNat - 48) * 10 + ((d 2).toNat - 48)

/-- A status line of HTTP 1, as far as it is looked at. -/
structure StatusLine (resp : Bytes) (code : ℕ) (minor a b c : UInt8) (tail : Bytes) : Prop where
  text : resp = bytes "HTTP/1." ++ [minor, 32, a, b, c] ++ tail
  minor : isDigit minor = true
  digits : isDigit a = true ∧ isDigit b = true ∧ isDigit c = true
  ends : ∀ x ∈ tail.head?, x = 32 ∨ x = 13 ∨ x = 10 ∨ x = 0
  code : code = (a.toNat - 48) * 100 + (b.toNat - 48) * 10 + (c.toNat - 48)

lemma getD_zero_eq (tail : Bytes) :
    (tail.getD 0 0 = 32 ∨ tail.getD 0 0 = 13 ∨ tail.getD 0 0 = 10 ∨ tail.getD 0 0 = 0) ↔
      ∀ x ∈ tail.head?, x = 32 ∨ x = 13 ∨ x = 10 ∨ x = 0 := by
  cases tail <;> simp

lemma le_toNat_of_isDigit {c : UInt8} (h : isDigit c = true) : 48 ≤ c.toNat := by
  simp only [isDigit, Bool.and_eq_true, decide_eq_true_eq, UInt8.le_iff_toNat_le,
    UInt8.reduceToNat] at h
  exact h.1

/-- The code is that of the status line; without one it is -1. -/
lemma acHttpStatusCode_eq_iff {resp : Bytes} {code : ℕ} :
    acHttpStatusCode resp = code ↔ ∃ minor a b c tail, StatusLine resp code minor a b c tail := by
  have hneg : (-1 : ℤ) ≠ code := by omega
  have hzero : isDigit 0 = false := by decide
  constructor
  · intro h
    unfold acHttpStatusCode at h
    split_ifs at h with hstart
    have htext : resp = bytes "HTTP/1." ++ resp.drop 7 := by
      rw [← not_ne_iff.mp hstart, List.take_append_drop]
    generalize resp.drop 7 = p at h htext
    obtain _ | ⟨minor, _ | ⟨sp, _ | ⟨a, _ | ⟨b, _ | ⟨c, tail⟩⟩⟩⟩⟩ := p
    · simp [hzero] at h
    · simp at h
    · simp [hzero] at h
    · simp [hzero] at h
    · simp [hzero] at h
    · simp only [List.getD_cons_zero, List.getD_cons_succ, Nat.reduceAdd, Nat.add_zero] at h
      split_ifs at h with hminor hsp hdigits hend
      simp only [Bool.not_eq_true', Bool.not_eq_false, Bool.or_eq_true, not_or] at hminor hdigits
      obtain ⟨⟨ha, hb⟩, hc⟩ := hdigits
      obtain rfl : sp = 32 := not_ne_iff.mp hsp
      have hends : tail.getD 0 0 = 32 ∨ tail.getD 0 0 = 13 ∨ tail.getD 0 0 = 10 ∨
          tail.getD 0 0 = 0 := by
        simp only [Bool.and_eq_true, decide_eq_true_eq] at hend
        tauto
      have hcode : code = (a.toNat - 48) * 100 + (b.toNat - 48) * 10 + (c.toNat - 48) := by
        have := le_toNat_of_isDigit ha
        have := le_toNat_of_isDigit hb
        have := le_toNat_of_isDigit hc
        omega
      exact ⟨minor, a, b, c, tail, by simpa using htext, hminor, ⟨ha, hb, hc⟩,
        (getD_zero_eq tail).mp hends, hcode⟩
  · rintro ⟨minor, a, b, c, tail, rfl, hminor, ⟨ha, hb, hc⟩, hends, rfl⟩
    have hend := (getD_zero_eq tail).mpr hends
    have hstart : (bytes "HTTP/1." ++ [minor, 32, a, b, c] ++ tail).take 7 = bytes "HTTP/1." := by
      rfl
    have hdrop : (bytes "HTTP/1." ++ [minor, 32, a, b, c] ++ tail).drop 7 =
        minor :: 32 :: a :: b :: c :: tail := rfl
    have hend' : ¬ (tail.getD 0 0 ≠ 32 && tail.getD 0 0 ≠ 13 && tail.getD 0 0 ≠ 10 &&
        tail.getD 0 0 ≠ 0) = true := by
      simp only [Bool.and_eq_true, decide_eq_true_eq]
      tauto
    unfold acHttpStatusCode
    rw [if_neg (not_ne_iff.mpr hstart), hdrop]
    simp only [List.getD_cons_zero, List.getD_cons_succ, Nat.reduceAdd, Nat.add_zero, hminor, ha,
      hb, hc, Bool.not_true, Bool.false_eq_true, if_false, ne_eq, not_true_eq_false, Bool.or_self]
    rw [if_neg hend']
    have := le_toNat_of_isDigit ha
    have := le_toNat_of_isDigit hb
    have := le_toNat_of_isDigit hc
    omega

end Anticheat.Report
