import Anticheat.Basic
import Anticheat.Lib.CText
import Anticheat.Report.Body

/-!
# The address of the report server

`ac_report_parse_url` takes `AC_REPORT_URL` apart. It looks for its separators in the whole text
and leaves the number of the port to `strtoul`, so that it accepts what the form `host:port` says
except where the path has a separator or the port a sign or white space that makes a difference.
-/

namespace Anticheat.Report

open CText

/-- `struct ac_report_dest` -/
structure AcReportDest where
  isUnix : Bool
  host : Bytes
  port : Bytes
  sockPath : Bytes
  deriving DecidableEq, Repr

/-- Why a URL is rejected. -/
inductive UrlError where
  | noSocketPath
  | socketPathTooLong
  | unclosedLiteral
  | noPortAfterLiteral
  | emptyHost
  | noColon
  | hostLineBreak
  | noPort
  | portTooLong
  | hostTooLong
  | portNotNumeric
  | portOutOfRange
  deriving DecidableEq, Repr

/-- What is printed for it, with the URL as it was given and without its scheme. -/
def UrlError.text (origUrl url : Bytes) : UrlError → String
  | .noSocketPath => "ac_report: unix:// AC_REPORT_URL missing a socket path"
  | .socketPathTooLong => "ac_report: unix socket path too long: " ++ bytesText (origUrl.drop 7)
  | .unclosedLiteral =>
    "ac_report: AC_REPORT_URL missing closing ']' in IPv6 literal: " ++ bytesText origUrl
  | .noPortAfterLiteral =>
    "ac_report: AC_REPORT_URL IPv6 literal must be followed by ':port': " ++ bytesText url
  | .emptyHost => "ac_report: AC_REPORT_URL has empty host: " ++ bytesText url
  | .noColon => "ac_report: AC_REPORT_URL must be host:port or unix:///path/to/socket"
  | .hostLineBreak => "ac_report: AC_REPORT_URL host contains CR/LF: " ++ bytesText origUrl
  | .noPort => "ac_report: AC_REPORT_URL missing port: " ++ bytesText origUrl
  | .portTooLong => "ac_report: AC_REPORT_URL port too long: " ++ bytesText origUrl
  | .hostTooLong => "ac_report: AC_REPORT_URL host too long: " ++ bytesText origUrl
  | .portNotNumeric => "ac_report: AC_REPORT_URL port is not numeric: " ++ bytesText origUrl
  | .portOutOfRange =>
    "ac_report: AC_REPORT_URL port out of range (1-65535): " ++ bytesText origUrl

/-! ### The parser -/

/-- The size of `sun_path` -/
def sunPathLen : ℕ := 108

/-- The URL without `http://` or `https://`. -/
def stripScheme (url : Bytes) : Bytes :=
  if bytes "http://" <+: url then url.drop 7
  else if bytes "https://" <+: url then url.drop 8
  else url

/-- The host and the text from the port on. -/
def splitHostPort (url : Bytes) : Except UrlError (Bytes × Bytes) :=
  if url.head? = some 91 then
    match strchr 93 url with
    | none => .error .unclosedLiteral
    | some (front, rest) =>
      if rest.head? ≠ some 58 then .error .noPortAfterLiteral
      else if front.tail = [] then .error .emptyHost
      else .ok (front.tail, rest.tail)
  else
    match strrchr 58 url with
    | none => .error .noColon
    | some (host, rest) => if host = [] then .error .emptyHost else .ok (host, rest)

/-- The checks of the host and of the port, which ends at the first `/`. -/
def checkHostPort (host rest : Bytes) : Except UrlError AcReportDest :=
  if 13 ∈ host || 10 ∈ host then .error .hostLineBreak
  else
    let port := rest.takeWhile (· ≠ 47)
    if port.length = 0 then .error .noPort
    else if 32 ≤ port.length then .error .portTooLong
    else if 256 ≤ host.length then .error .hostTooLong
    else
      match strtoul port with
      | some (v, []) =>
        if v = 0 || 65535 < v then .error .portOutOfRange else .ok ⟨false, host, port, []⟩
      | _ => .error .portNotNumeric

/-- `ac_report_parse_url` -/
def acReportParseUrl (url : Bytes) : Except UrlError AcReportDest :=
  if bytes "unix://" <+: url then
    let path := url.drop 7
    if path = [] then .error .noSocketPath
    else if sunPathLen ≤ path.length then .error .socketPathTooLong
    else .ok ⟨true, bytes "localhost", [], path⟩
  else
    match splitHostPort (stripScheme url) with
    | .error e => .error e
    | .ok (host, rest) => checkHostPort host rest

/-! ### The form of an address -/

/-- What comes before the first `/`, after the scheme. -/
def authority (url : Bytes) : Bytes := (stripScheme url).takeWhile (· ≠ 47)

/-- `[host]:port` with no `]` in the host, or else `host:port` split at the last `:`. -/
def IsSplit (a host port : Bytes) : Prop :=
  if a.head? = some 91 then a = 91 :: host ++ 93 :: 58 :: port ∧ 93 ∉ host
  else a = host ++ 58 :: port ∧ 58 ∉ port

/-- The address names a host and a port. -/
structure Names (url host port : Bytes) : Prop where
  split : IsSplit (authority url) host port
  host_pos : 1 ≤ host.length
  host_le : host.length ≤ 255
  no_cr : 13 ∉ host
  no_lf : 10 ∉ host
  port_pos : 1 ≤ port.length
  port_le : port.length ≤ 31
  digits : ∀ c ∈ port, isDigit c = true
  port_val : 1 ≤ decVal port ∧ decVal port ≤ 65535

/-- A text that `strtoul` takes for a number from 1 to 65535. A minus sign wraps. -/
def IsPort (port : Bytes) : Prop :=
  ∃ neg ds, Numeral port neg ds ∧
    if neg then 2 ^ 64 - 65535 ≤ decVal ds ∧ decVal ds < 2 ^ 64
    else 1 ≤ decVal ds ∧ decVal ds ≤ 65535

/-- Host and port by the first `]` of the whole text, or else by its last `:`, path included. -/
def IsRead (url host port : Bytes) : Prop :=
  ∃ rest, rest.takeWhile (· ≠ 47) = port ∧
    if url.head? = some 91 then url = 91 :: host ++ 93 :: 58 :: rest ∧ 93 ∉ host
    else url = host ++ 58 :: rest ∧ 58 ∉ rest

/-- They have room, and the host does not break the header it is put into. -/
structure Fits (host port : Bytes) : Prop where
  host_pos : 1 ≤ host.length
  host_le : host.length ≤ 255
  no_cr : 13 ∉ host
  no_lf : 10 ∉ host
  port_pos : 1 ≤ port.length
  port_le : port.length ≤ 31

/-- An address that is one has no `:` in its path, unless it has brackets; and what can be read out
of the whole text as a host and a port has a host before the path and a port of digits. -/
structure WellRead (url : Bytes) : Prop where
  path : ∀ host port, Names url host port →
    (stripScheme url).head? = some 91 ∨ 58 ∉ (stripScheme url).dropWhile (· ≠ 47)
  strict : ∀ host port, IsRead (stripScheme url) host port → Fits host port → IsPort port →
    47 ∉ host ∧ ∀ c ∈ port, isDigit c = true

/-! ### The port -/

lemma toU64_range {neg : Bool} {n : ℕ} :
    (toU64 neg n = 0 || 65535 < toU64 neg n) = false ↔
      if neg then 2 ^ 64 - 65535 ≤ n ∧ n < 2 ^ 64 else 1 ≤ n ∧ n ≤ 65535 := by
  by_cases hbig : 2 ^ 64 ≤ n
  · have hsat : toU64 neg n = UInt64.ofNat (2 ^ 64 - 1) := if_pos hbig
    rw [hsat]
    refine iff_of_false (by decide) ?_
    split_ifs <;> omega
  · have hn : (UInt64.ofNat n).toNat = n := UInt64.toNat_ofNat_of_lt (Nat.lt_of_not_le hbig)
    rw [toU64, if_neg hbig, Bool.or_eq_false_iff, decide_eq_false_iff_not,
      decide_eq_false_iff_not, ← UInt64.toNat_inj, UInt64.lt_iff_toNat_lt]
    cases neg with
    | true =>
      simp only [if_true, UInt64.toNat_neg, hn, UInt64.toNat_zero, UInt64.reduceToNat,
        UInt64.size]
      omega
    | false =>
      simp only [Bool.false_eq_true, if_false, hn, UInt64.toNat_zero, UInt64.reduceToNat]
      omega

lemma isPort_iff {port : Bytes} :
    IsPort port ↔ ∃ v, strtoul port = some (v, []) ∧ (v = 0 || 65535 < v) = false := by
  constructor
  · rintro ⟨neg, ds, hport, hrange⟩
    exact ⟨_, strtoul_eq_some.mpr ⟨neg, ds, hport, rfl⟩, toU64_range.mpr hrange⟩
  · rintro ⟨v, hv, hrange⟩
    obtain ⟨neg, ds, hport, rfl⟩ := strtoul_eq_some.mp hv
    exact ⟨neg, ds, hport, toU64_range.mp hrange⟩

/-- Of digits, the text is the number. -/
lemma isPort_of_digits {port : Bytes} (hdigits : ∀ c ∈ port, isDigit c = true) :
    IsPort port ↔ port ≠ [] ∧ 1 ≤ decVal port ∧ decVal port ≤ 65535 := by
  constructor
  · rintro ⟨neg, ds, ⟨⟨hne, -⟩, space, sign, rfl, hspace, hsign⟩, hrange⟩
    have hnospace : space = [] := by
      refine List.eq_nil_iff_forall_not_mem.mpr fun c hc => ?_
      have hc' := isspace_eq_false_of_isDigit (hdigits c (List.mem_append_left _ hc))
      exact absurd (hspace c hc) (by simp [hc'])
    have hnosign : ∀ c ∈ sign, isDigit c = true := fun c hc =>
      hdigits c (List.mem_append_right _ (List.mem_append_left _ hc))
    subst hnospace
    cases neg with
    | true =>
      rw [show sign = [45] from hsign] at hnosign
      exact absurd (hnosign 45 List.mem_cons_self) (by decide)
    | false =>
      rcases (show sign = [] ∨ sign = [43] from hsign) with rfl | rfl
      · exact ⟨hne, hrange⟩
      · exact absurd (hnosign 43 List.mem_cons_self) (by decide)
  · rintro ⟨hne, hrange⟩
    exact ⟨false, port, ⟨⟨hne, hdigits⟩, [], [], rfl, by simp, Or.inl rfl⟩, hrange⟩

lemma names_iff {url host port : Bytes} :
    Names url host port ↔ IsSplit (authority url) host port ∧ Fits host port ∧ IsPort port ∧
      ∀ c ∈ port, isDigit c = true := by
  constructor
  · intro h
    exact ⟨h.split, ⟨h.host_pos, h.host_le, h.no_cr, h.no_lf, h.port_pos, h.port_le⟩,
      (isPort_of_digits h.digits).mpr ⟨List.ne_nil_of_length_pos h.port_pos, h.port_val⟩,
      h.digits⟩
  · rintro ⟨hsplit, hfits, hport, hdigits⟩
    exact ⟨hsplit, hfits.host_pos, hfits.host_le, hfits.no_cr, hfits.no_lf, hfits.port_pos,
      hfits.port_le, hdigits, ((isPort_of_digits hdigits).mp hport).2⟩

/-! ### What the parser accepts -/

lemma checkHostPort_eq_ok {host rest : Bytes} {dest : AcReportDest} (hhost : host ≠ []) :
    checkHostPort host rest = .ok dest ↔
      Fits host (rest.takeWhile (· ≠ 47)) ∧ IsPort (rest.takeWhile (· ≠ 47)) ∧
        dest = ⟨false, host, rest.takeWhile (· ≠ 47), []⟩ := by
  have hpos := List.length_pos_of_ne_nil hhost
  rw [isPort_iff, checkHostPort]
  generalize rest.takeWhile (· ≠ 47) = port
  constructor
  · intro h
    simp only at h
    split_ifs at h with hbreak hempty hlong hlen
    simp only [Bool.or_eq_true, decide_eq_true_eq, not_or] at hbreak
    refine ⟨⟨hpos, by omega, hbreak.1, hbreak.2, by omega, by omega⟩, ?_⟩
    cases hs : strtoul port with
    | none =>
      rw [hs] at h
      cases h
    | some r =>
      obtain ⟨v, tail⟩ := r
      rw [hs] at h
      cases tail with
      | cons c tail => cases h
      | nil =>
        simp only at h
        split_ifs at h with hrange
        cases h
        exact ⟨⟨v, rfl, Bool.eq_false_iff.mpr hrange⟩, rfl⟩
  · rintro ⟨h, ⟨v, hv, hrange⟩, rfl⟩
    have hlen := h.host_le
    have hport := h.port_pos
    have hport' := h.port_le
    simp only
    rw [if_neg (by simp [h.no_cr, h.no_lf]), if_neg (by omega), if_neg (by omega),
      if_neg (by omega), hv]
    simp only [hrange, Bool.false_eq_true, if_false]

lemma splitHostPort_eq_ok {url host rest : Bytes} :
    splitHostPort url = .ok (host, rest) ↔ host ≠ [] ∧
      if url.head? = some 91 then url = 91 :: host ++ 93 :: 58 :: rest ∧ 93 ∉ host
      else url = host ++ 58 :: rest ∧ 58 ∉ rest := by
  rw [splitHostPort]
  split_ifs with hbracket
  · cases hsplit : strchr 93 url with
    | none =>
      rw [strchr_eq_none] at hsplit
      refine iff_of_false (by simp) ?_
      rintro ⟨-, rfl, -⟩
      simp at hsplit
    | some p =>
      obtain ⟨front, after⟩ := p
      obtain ⟨rfl, hfront⟩ := strchr_eq_some.mp hsplit
      -- the host starts after the bracket
      obtain ⟨h, rfl⟩ : ∃ h, front = 91 :: h := by
        cases front with
        | nil => cases hbracket
        | cons c h => exact ⟨h, by rw [Option.some.inj hbracket]⟩
      have hfront' : 93 ∉ h := fun hmem => hfront (List.mem_cons_of_mem _ hmem)
      constructor
      · intro hok
        simp only at hok
        split_ifs at hok with hport hhost
        obtain ⟨x, rfl⟩ := List.head?_eq_some_iff.mp (not_not.mp hport)
        cases hok
        exact ⟨hhost, rfl, hfront'⟩
      · rintro ⟨hhost, heq, hnot⟩
        have hthere : strchr 93 (91 :: host ++ 93 :: 58 :: rest) = some (91 :: host, 58 :: rest) :=
          strchr_eq_some.mpr ⟨rfl, by simp [hnot]⟩
        rw [← heq, hsplit] at hthere
        cases hthere
        simp [hhost]
  · cases hsplit : strrchr 58 url with
    | none =>
      rw [strrchr_eq_none] at hsplit
      refine iff_of_false (by simp) ?_
      rintro ⟨-, rfl, -⟩
      simp at hsplit
    | some p =>
      obtain ⟨front, after⟩ := p
      rw [← strrchr_eq_some, hsplit]
      constructor
      · intro hok
        simp only at hok
        split_ifs at hok with hhost
        cases hok
        exact ⟨hhost, rfl⟩
      · rintro ⟨hhost, heq⟩
        cases heq
        exact if_neg hhost

lemma acReportParseUrl_eq_ok {url : Bytes} (hunix : ¬ bytes "unix://" <+: url)
    {dest : AcReportDest} :
    acReportParseUrl url = .ok dest ↔ ∃ host port, IsRead (stripScheme url) host port ∧
      Fits host port ∧ IsPort port ∧ dest = ⟨false, host, port, []⟩ := by
  rw [acReportParseUrl, if_neg hunix]
  constructor
  · intro h
    cases hsplit : splitHostPort (stripScheme url) with
    | error e =>
      rw [hsplit] at h
      cases h
    | ok p =>
      obtain ⟨host, rest⟩ := p
      rw [hsplit] at h
      obtain ⟨hhost, hread⟩ := splitHostPort_eq_ok.mp hsplit
      exact ⟨host, _, ⟨rest, rfl, hread⟩, (checkHostPort_eq_ok hhost).mp h⟩
  · rintro ⟨host, port, ⟨rest, rfl, hread⟩, hfits, hport, rfl⟩
    have hhost := List.ne_nil_of_length_pos hfits.host_pos
    rw [splitHostPort_eq_ok.mpr ⟨hhost, hread⟩]
    exact (checkHostPort_eq_ok hhost).mpr ⟨hfits, hport, rfl⟩

/-! ### The authority and the whole text -/

section

variable {a path : Bytes}

lemma takeWhile_append_path (hpath : ∀ c ∈ path.head?, c = 47) {x : Bytes} (hx : 47 ∉ x) :
    (x ++ path).takeWhile (· ≠ 47) = x := by
  rw [List.takeWhile_append_of_pos]
  · cases path with
    | nil => simp
    | cons c path => simp [hpath c rfl]
  · intro y hy
    simpa using ne_of_mem_of_not_mem hy hx

lemma head_append_path (hpath : ∀ c ∈ path.head?, c = 47) {x : Bytes} {c : UInt8} (hc : c ≠ 47) :
    (x ++ path).head? = some c ↔ x.head? = some c := by
  cases x with
  | nil => exact iff_of_false (fun h => hc (hpath c h)) (by simp)
  | cons b x => simp

/-- What comes after `x` in a text is the rest of its authority and its path. -/
lemma append_eq_append_path (ha : 47 ∉ a) (hpath : ∀ c ∈ path.head?, c = 47) {x : Bytes}
    (hx : 47 ∉ x) (rest : Bytes) :
    a ++ path = x ++ rest ↔ a = x ++ rest.takeWhile (· ≠ 47) ∧ path = rest.dropWhile (· ≠ 47) := by
  constructor
  · intro h
    have hall : ∀ y ∈ x, decide (y ≠ 47) = true := fun y hy => by
      simpa using ne_of_mem_of_not_mem hy hx
    have hfront := congrArg (List.takeWhile (· ≠ 47)) h
    rw [takeWhile_append_path hpath ha, List.takeWhile_append_of_pos hall] at hfront
    refine ⟨hfront, ?_⟩
    rw [hfront, List.append_assoc] at h
    have hrest := List.append_cancel_left h
    nth_rewrite 2 [← List.takeWhile_append_dropWhile (p := (· ≠ 47)) (l := rest)] at hrest
    exact List.append_cancel_left hrest
  · rintro ⟨rfl, rfl⟩
    rw [List.append_assoc, List.takeWhile_append_dropWhile]

/-- The two splits agree where the host has no `/` and the path no separator. -/
lemma isRead_iff (ha : 47 ∉ a) (hpath : ∀ c ∈ path.head?, c = 47) {host port : Bytes} :
    IsRead (a ++ path) host port ∧ 47 ∉ host ↔
      IsSplit a host port ∧ (a.head? = some 91 ∨ 58 ∉ path) := by
  rw [IsRead, IsSplit]
  by_cases hbracket : a.head? = some 91
  · simp only [if_pos ((head_append_path hpath (by decide)).mpr hbracket), hbracket, true_or,
      and_true]
    constructor
    · rintro ⟨⟨rest, rfl, htext, hlit⟩, hhost⟩
      have hfront : (47 : UInt8) ∉ 91 :: host ++ [93, 58] := by simp [hhost]
      have hcut := (append_eq_append_path ha hpath hfront rest).mp (by simpa using htext)
      exact ⟨by simpa using hcut.1, hlit⟩
    · rintro ⟨rfl, hlit⟩
      have hport : 47 ∉ port := fun h => ha (by simp [h])
      exact ⟨⟨port ++ path, takeWhile_append_path hpath hport, by simp, hlit⟩,
        fun h => ha (by simp [h])⟩
  · simp only [if_neg (mt (head_append_path hpath (by decide)).mp hbracket), hbracket, false_or]
    constructor
    · rintro ⟨⟨rest, rfl, htext, hlast⟩, hhost⟩
      have hfront : (47 : UInt8) ∉ host ++ [58] := by simp [hhost]
      have hcut := (append_eq_append_path ha hpath hfront rest).mp (by simpa using htext)
      refine ⟨⟨by simpa using hcut.1, fun h => hlast ?_⟩, fun h => hlast ?_⟩
      · exact (List.takeWhile_subset _) h
      · exact (List.dropWhile_subset _) (hcut.2 ▸ h)
    · rintro ⟨⟨rfl, hlast⟩, hpath'⟩
      have hport : 47 ∉ port := fun h => ha (by simp [h])
      refine ⟨⟨port ++ path, takeWhile_append_path hpath hport, by simp, ?_⟩,
        fun h => ha (by simp [h])⟩
      simp [hlast, hpath']

end

lemma isRead_stripScheme {url host port : Bytes} :
    IsRead (stripScheme url) host port ∧ 47 ∉ host ↔
      IsSplit (authority url) host port ∧ ((stripScheme url).head? = some 91 ∨
        58 ∉ (stripScheme url).dropWhile (· ≠ 47)) := by
  have hcut : authority url ++ (stripScheme url).dropWhile (· ≠ 47) = stripScheme url :=
    List.takeWhile_append_dropWhile
  have hpath : ∀ c ∈ ((stripScheme url).dropWhile (· ≠ 47)).head?, c = 47 := by
    intro c hc
    have hnot := List.head?_dropWhile_not (fun x : UInt8 => decide (x ≠ 47)) (stripScheme url)
    rw [Option.mem_def.mp hc] at hnot
    simpa using hnot
  have hauth : 47 ∉ authority url := by
    intro h
    simpa using List.mem_takeWhile_imp h
  have hhead : (stripScheme url).head? = some 91 ↔ (authority url).head? = some 91 := by
    rw [← head_append_path (x := authority url) hpath (by decide), hcut]
  rw [hhead, ← isRead_iff hauth hpath, hcut]

lemma Names.slash_not_mem {url host port : Bytes} (h : Names url host port) : 47 ∉ host := by
  intro hmem
  have hin : 47 ∈ authority url := by
    have hsplit := h.split
    rw [IsSplit] at hsplit
    split_ifs at hsplit <;> simp [hsplit.1, hmem]
  simpa using List.mem_takeWhile_imp hin

/-! ### The accepted addresses -/

/-- The parser accepts an address exactly if it has the form `host:port`, with that host and that
port, for the texts that are well read and for no other ones. -/
theorem acReportParseUrl_iff (url : Bytes) (hunix : ¬ bytes "unix://" <+: url) :
    (∀ dest, acReportParseUrl url = .ok dest ↔
      ∃ host port, Names url host port ∧ dest = ⟨false, host, port, []⟩) ↔ WellRead url := by
  simp only [acReportParseUrl_eq_ok hunix]
  constructor
  · intro hall
    refine ⟨fun host port hnames => ?_, fun host port hread hfits hport => ?_⟩
    · obtain ⟨host', port', hread, -, -, heq⟩ := (hall _).mpr ⟨host, port, hnames, rfl⟩
      cases heq
      exact (isRead_stripScheme.mp ⟨hread, hnames.slash_not_mem⟩).2
    · obtain ⟨host', port', hnames, heq⟩ := (hall _).mp ⟨host, port, hread, hfits, hport, rfl⟩
      cases heq
      exact ⟨hnames.slash_not_mem, hnames.digits⟩
  · intro h dest
    constructor
    · rintro ⟨host, port, hread, hfits, hport, rfl⟩
      obtain ⟨hslash, hdigits⟩ := h.strict host port hread hfits hport
      have hsplit := (isRead_stripScheme.mp ⟨hread, hslash⟩).1
      exact ⟨host, port, names_iff.mpr ⟨hsplit, hfits, hport, hdigits⟩, rfl⟩
    · rintro ⟨host, port, hnames, rfl⟩
      obtain ⟨hsplit, hfits, hport, -⟩ := names_iff.mp hnames
      have hread := (isRead_stripScheme.mpr ⟨hsplit, h.path host port hnames⟩).1
      exact ⟨host, port, hread, hfits, hport, rfl⟩

theorem acReportParseUrl_iff_literal :
    WellRead (bytes "http://[::1]:8787/a:b") ∧
      ∀ dest, acReportParseUrl (bytes "http://[::1]:8787/a:b") = .ok dest ↔
        ∃ host port, Names (bytes "http://[::1]:8787/a:b") host port ∧
          dest = ⟨false, host, port, []⟩ := by
  have hread : WellRead (bytes "http://[::1]:8787/a:b") := by
    refine ⟨fun _ _ _ => Or.inl (by decide +kernel), fun host port hread hfits _ => ?_⟩
    obtain ⟨rest, rfl, hform⟩ := hread
    have hsplit := splitHostPort_eq_ok.mpr ⟨List.ne_nil_of_length_pos hfits.host_pos, hform⟩
    have hthere : splitHostPort (stripScheme (bytes "http://[::1]:8787/a:b")) =
        .ok (bytes "::1", bytes "8787/a:b") := by decide +kernel
    cases hthere.symm.trans hsplit
    exact ⟨by decide, List.all_eq_true.mp (by decide)⟩
  exact ⟨hread, (acReportParseUrl_iff _ (by decide +kernel)).mpr hread⟩

/-- A `:` in the path is taken for the one before the port, and `strtoul` takes a sign. -/
theorem acReportParseUrl_not_iff :
    (Names (bytes "host:8080/a:b") (bytes "host") (bytes "8080") ∧
        acReportParseUrl (bytes "host:8080/a:b") = .error .portNotNumeric) ∧
      acReportParseUrl (bytes "host:+80") = .ok ⟨false, bytes "host", bytes "+80", []⟩ ∧
      ∀ host port, ¬ Names (bytes "host:+80") host port := by
  have hsplit : IsSplit (authority (bytes "host:8080/a:b")) (bytes "host") (bytes "8080") := by
    rw [IsSplit]
    decide +kernel
  have hdigits : ∀ c ∈ bytes "8080", isDigit c = true := List.all_eq_true.mp (by decide)
  refine ⟨⟨⟨hsplit, by decide, by decide, by decide, by decide, by decide, by decide, hdigits,
    by decide⟩, by decide +kernel⟩, by decide +kernel, ?_⟩
  intro host port h
  have hform := h.split
  rw [IsSplit, if_neg (by decide +kernel), ← strrchr_eq_some] at hform
  have hthere : strrchr 58 (authority (bytes "host:+80")) = some (bytes "host", bytes "+80") := by
    decide +kernel
  cases hthere.symm.trans hform
  exact absurd (h.digits 43 (by decide)) (by decide)

end Anticheat.Report
