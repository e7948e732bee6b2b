import Anticheat.Server.Handlers
import Mathlib.Tactic.Ring

/-!
# The framing of a request's body

What the `POST` handlers ask of the body stream, and which `Content-Length` and `Transfer-Encoding`
headers let them. The handlers of `Server.Handlers` are written here once more with `rfile` as a
stream that remembers how much was asked of it, and with an `int` that raises on long texts.
-/

namespace Anticheat.Server

open Json (Text Value)

/-- `self.rfile`: the bytes that are left, and the sizes that were asked for. -/
structure Rfile where
  bytes : List UInt8
  asked : List ℕ
  deriving DecidableEq, Repr

/-- What ends a handler early: what `Stop` says, or the `ValueError` of `int`. -/
inductive Exit
  | stop (s : Stop)
  | valueError
  deriving DecidableEq, Repr

abbrev Handling := ExceptT Exit (StateM Rfile)

/-- The `Transfer-Encoding` and `Content-Length` headers, each in the order of their occurrence. -/
structure Headers where
  transferEncoding : List Text
  contentLength : List Text
  deriving DecidableEq, Repr

/-- The request with these headers and this body. -/
def Headers.request (h : Headers) (bytes : List UInt8) : Request :=
  ⟨h.transferEncoding.head?, h.contentLength, bytes⟩

/-- `rfile.read` -/
def rfileRead (n : ℕ) : Handling (List UInt8) := do
  let s ← get
  set (Rfile.mk (s.bytes.drop n) (s.asked ++ [n]))
  return s.bytes.take n

/-- `int` of decimal digits -/
def pyInt (digits : Text) : Handling ℕ :=
  if QueryString.maxStrDigits < digits.length then throw .valueError
  else return Json.digitsVal digits

/-- `strip(" \t")` -/
def stripBlanks (raw : Text) : Text :=
  let blank : ℕ → Bool := fun c => c = 32 || c = 9
  ((raw.dropWhile blank).reverse.dropWhile blank).reverse

namespace Headers

variable (h : Headers)

/-- `_parse_content_length` -/
def parseContentLength (raw : Text) : Handling (Option ℕ) := do
  let t := stripBlanks raw
  if t = [] ∨ ¬ t.all Json.isDigit then return none
  let digits := if t.dropWhile (· = 48) = [] then text "0" else t.dropWhile (· = 48)
  if (text (toString maxBodyBytes)).length < digits.length then return some (maxBodyBytes + 1)
  return some (← pyInt digits)

/-- `_check_body_framing` -/
def checkBodyFraming : Handling (Option (ℕ × String)) := do
  if h.transferEncoding.head?.isSome then
    return some (400, "chunked transfer-encoding not supported")
  if 1 < h.contentLength.length then return some (400, "duplicate content-length")
  match ← parseContentLength (h.contentLength.headD (text "0")) with
  | none => return some (400, "bad request")
  | some length => return if maxBodyBytes < length then some (413, "payload too large") else none

/-- `_read_json_body` -/
def readJsonBody (depth : ℕ) : Handling (Option Value) := do
  match ← parseContentLength (h.contentLength.headD (text "0")) with
  | none => return none
  | some length =>
    if length = 0 ∨ maxBodyBytes < length then return none
    let raw ← rfileRead length
    match Json.loads depth (Utf8.decode raw) with
    | .ok v => return some v
    | .error .value => return none
    | .error .recursion => throw (.stop (.raised .recursion))

/-- `_require_body_client_id` -/
def requireBodyClientId (depth : ℕ) : Handling (Text × List (Text × Value)) := do
  match ← h.checkBodyFraming with
  | some (status, error) => throw (.stop (.reply (.error status error)))
  | none =>
    match ← h.readJsonBody depth with
    | some (.obj ms) =>
      if ms = [] then throw (.stop (.reply (.error 400 "bad request")))
      match Json.get? ms (text "client_id") with
      | some (.str clientId) =>
        if clientIdRe clientId then return (clientId, ms)
        throw (.stop (.reply (.error 400 "invalid client_id")))
      | _ => throw (.stop (.reply (.error 400 "invalid client_id")))
    | _ => throw (.stop (.reply (.error 400 "bad request")))

end Headers

/-! ### The handlers -/

/-- The handlers of `POST` requests. -/
inductive PostHandler
  | report
  | ban
  | unban
  deriving DecidableEq, Repr

namespace PostHandler

variable (P : PostHandler) (depth : ℕ) (conn : Conn) (st : Store)

/-- What the handler does with the members of the body. -/
def finish (clientId : Text) (ms : List (Text × Value)) : Except Stop (Store × Reply) :=
  match P with
  | report => answerCall st do
    let eventType ← textMember ms "event_type" (· ≤ 64)
    let detail ← textMember ms "detail" (· ≤ 2000)
    let clientTs ← tsMember ms
    return .addReport
      ⟨clientId, eventType, detail, clientTs, conn.clientIp, conn.now, conn.freelist⟩
  | ban => answerCall st do
    let reason ← textMember ms "reason" fun n => 0 < n && n ≤ 500
    return .ban clientId reason conn.now
  | unban =>
    match st.unban clientId with
    | .ok (st', existed) => .ok (st', .unbanned existed)
    | .error e => .error (.raised (.sql e))

/-- The handler of `Server.Handlers`. -/
def handle (req : Request) : Except Stop (Store × Reply) :=
  match P with
  | report => handleReport depth conn st req
  | ban => handleBan depth conn st req
  | unban => handleUnban depth st req

/-- `_handle_report`, `_handle_ban` and `_handle_unban` -/
def run (h : Headers) : Handling (Store × Reply) := do
  let (clientId, ms) ← h.requireBodyClientId depth
  match P.finish conn st clientId ms with
  | .ok r => return r
  | .error s => throw (.stop s)

end PostHandler

/-- `_dispatch`: the answer to the request. -/
def exitReply (r : Except Exit (Store × Reply)) : Reply :=
  match r with
  | .ok p => p.2
  | .error (.stop (.reply r)) => r
  | .error (.stop (.raised _)) => .error 500 "internal error"
  | .error .valueError => .error 500 "internal error"

/-! ### The length of the body -/

/-- The number that the only `Content-Length` header denotes, when the framing is valid: no
`Transfer-Encoding`, and the value is of decimal digits with blanks around them. -/
def Headers.declared (h : Headers) : Option ℕ :=
  match h.transferEncoding, h.contentLength with
  | [], [raw] =>
    if stripBlanks raw ≠ [] ∧ ∀ c ∈ stripBlanks raw, 48 ≤ c ∧ c ≤ 57 then
      some (Json.digitsVal (stripBlanks raw))
    else none
  | _, _ => none

lemma digitsVal_cons (d : ℕ) (ds : Text) :
    Json.digitsVal (d :: ds) = (d - 48) * 10 ^ ds.length + Json.digitsVal ds := by
  have hfold : ∀ (ds : Text) (n : ℕ), ds.foldl (fun n d => n * 10 + (d - 48)) n =
      n * 10 ^ ds.length + Json.digitsVal ds := by
    intro ds
    induction ds with
    | nil => simp [Json.digitsVal]
    | cons d ds ih =>
      intro n
      rw [Json.digitsVal, List.foldl_cons, List.foldl_cons, ih, ih (0 * 10 + (d - 48)),
        List.length_cons, Nat.pow_succ]
      ring
  rw [Json.digitsVal, List.foldl_cons, hfold]
  simp

lemma digitsVal_dropWhile (ds : Text) :
    Json.digitsVal (ds.dropWhile (· = 48)) = Json.digitsVal ds := by
  induction ds with
  | nil => rfl
  | cons d ds ih =>
    rw [List.dropWhile_cons]
    split_ifs with hd
    · rw [ih, digitsVal_cons]
      simp [of_decide_eq_true hd]
    · rfl

/-- Digits that do not start with a zero denote a number of their length. -/
lemma le_digitsVal {d : ℕ} {ds : Text} (hd : 49 ≤ d) :
    10 ^ ds.length ≤ Json.digitsVal (d :: ds) := by
  rw [digitsVal_cons]
  exact Nat.le_add_right_of_le (Nat.le_mul_of_pos_left _ (by omega))

lemma isDigits_iff {t : Text} : t.all Json.isDigit = true ↔ ∀ c ∈ t, 48 ≤ c ∧ c ≤ 57 := by
  simp [Json.isDigit]

/-- The length of the digits stands in for the size of the number. -/
lemma parseContentLength_of_digits {raw : Text} (hne : stripBlanks raw ≠ [])
    (hdigits : ∀ c ∈ stripBlanks raw, 48 ≤ c ∧ c ≤ 57) :
    ∃ n, parseContentLength raw = some n ∧ (n = Json.digitsVal (stripBlanks raw) ∨
      maxBodyBytes < n ∧ maxBodyBytes < Json.digitsVal (stripBlanks raw)) := by
  have hvalid : ¬ (stripBlanks raw = [] ∨ ¬ (stripBlanks raw).all Json.isDigit = true) := by
    rw [isDigits_iff]
    tauto
  have heq : parseContentLength raw = if 4 < ((stripBlanks raw).dropWhile (· = 48)).length then
      some (maxBodyBytes + 1) else some (Json.digitsVal ((stripBlanks raw).dropWhile (· = 48))) :=
    if_neg hvalid
  rw [heq, digitsVal_dropWhile]
  split_ifs with hlen
  · refine ⟨_, rfl, .inr ⟨Nat.lt_succ_self _, ?_⟩⟩
    rw [← digitsVal_dropWhile]
    have hhead := List.head?_dropWhile_not (p := fun c : ℕ => decide (c = 48)) (stripBlanks raw)
    have hmem : ∀ c ∈ (stripBlanks raw).dropWhile (· = 48), 48 ≤ c ∧ c ≤ 57 :=
      fun c hc => hdigits c ((List.dropWhile_suffix _).subset hc)
    cases hdrop : (stripBlanks raw).dropWhile (· = 48) with
    | nil => simp [hdrop] at hlen
    | cons d ds =>
      rw [hdrop] at hlen hhead hmem
      have hd : 49 ≤ d := by
        have hge := (hmem d List.mem_cons_self).1
        have hne48 : d ≠ 48 := by simpa using hhead
        omega
      calc maxBodyBytes < 10 ^ 4 := by decide
        _ ≤ 10 ^ ds.length :=
          Nat.pow_le_pow_right (by decide) (Nat.le_of_lt_succ (by simpa using hlen))
        _ ≤ Json.digitsVal (d :: ds) := le_digitsVal hd
  · exact ⟨_, rfl, .inl rfl⟩

lemma parseContentLength_of_not_digits {raw : Text}
    (h : ¬ (stripBlanks raw ≠ [] ∧ ∀ c ∈ stripBlanks raw, 48 ≤ c ∧ c ≤ 57)) :
    parseContentLength raw = none := by
  refine if_pos ?_
  show stripBlanks raw = [] ∨ ¬ (stripBlanks raw).all Json.isDigit = true
  rw [isDigits_iff]
  tauto

/-- No header makes the parse raise: `int` is given at most four digits. -/
lemma Headers.parseContentLength_eq (raw : Text) :
    Headers.parseContentLength raw = pure (Server.parseContentLength raw) := by
  have hplain : Server.parseContentLength raw =
      if stripBlanks raw = [] ∨ ¬ (stripBlanks raw).all Json.isDigit = true then none
      else if 4 < ((stripBlanks raw).dropWhile (· = 48)).length then some (maxBodyBytes + 1)
      else some (Json.digitsVal ((stripBlanks raw).dropWhile (· = 48))) := rfl
  have hmax : (text (toString maxBodyBytes)).length = 4 := by decide
  rw [hplain, Headers.parseContentLength, hmax]
  by_cases hvalid : stripBlanks raw = [] ∨ ¬ (stripBlanks raw).all Json.isDigit = true
  · simp only [hvalid, if_true]
  simp only [hvalid, if_false]
  by_cases hnil : (stripBlanks raw).dropWhile (· = 48) = []
  · simp only [hnil, if_true]
    rfl
  · simp only [hnil, if_false]
    by_cases hlen : 4 < ((stripBlanks raw).dropWhile (· = 48)).length
    · simp only [hlen, if_true]
    · have hint : pyInt ((stripBlanks raw).dropWhile (· = 48)) =
          pure (Json.digitsVal ((stripBlanks raw).dropWhile (· = 48))) :=
        if_neg fun h => hlen (Nat.lt_trans (by decide) h)
      simp only [hlen, if_false, hint]
      rfl

/-! ### What a handler asks of the stream -/

section Run

/-- A handler that goes on without the stream after `m` follows the plain one. -/
lemma run_bind {α β : Type} {m : Handling α} {f : α → Handling β} {r : Except Stop α}
    {g : α → Except Stop β} {s s' : Rfile} (hm : m.run s = (r.mapError Exit.stop, s'))
    (hf : ∀ a, (f a).run s' = ((g a).mapError Exit.stop, s')) :
    (m >>= f).run s = ((r >>= g).mapError Exit.stop, s') := by
  have hbind : (m >>= f).run s = ExceptT.bindCont f (m.run s).1 (m.run s).2 := rfl
  rw [hbind, hm]
  cases r with
  | error e => rfl
  | ok a => exact hf a

variable (h : Headers) (depth : ℕ) (bytes : List UInt8)

lemma Headers.checkBodyFraming_eq :
    h.checkBodyFraming = pure (h.request bytes).checkBodyFraming := by
  unfold Headers.checkBodyFraming Request.checkBodyFraming
  simp only [Headers.request, Headers.parseContentLength_eq, pure_bind]
  by_cases hte : h.transferEncoding.head?.isSome = true
  · simp only [hte, if_true]
  by_cases hcl : 1 < h.contentLength.length
  · simp only [hte, hcl, if_true, Bool.false_eq_true, if_false]
  simp only [hte, hcl, Bool.false_eq_true, if_false]
  cases Server.parseContentLength (h.contentLength.headD (text "0")) <;> rfl

/-- The sizes that `_read_json_body` asks for. -/
def Headers.bodyReads : List ℕ :=
  match Server.parseContentLength (h.contentLength.headD (text "0")) with
  | none => []
  | some n => if n = 0 ∨ maxBodyBytes < n then [] else [n]

lemma Headers.readJsonBody_run : ∃ rest, (h.readJsonBody depth).run ⟨bytes, []⟩ =
    (((h.request bytes).readJsonBody depth).mapError Exit.stop, ⟨rest, h.bodyReads⟩) := by
  unfold Headers.readJsonBody Request.readJsonBody Headers.bodyReads
  simp only [Headers.request, Headers.parseContentLength_eq, pure_bind]
  cases Server.parseContentLength (h.contentLength.headD (text "0")) with
  | none => exact ⟨bytes, rfl⟩
  | some n =>
    by_cases hn : n = 0 ∨ maxBodyBytes < n
    · simp only [hn, if_true]
      exact ⟨bytes, rfl⟩
    · simp only [hn, if_false]
      have hread : ∀ {α : Type} (f : List UInt8 → Handling α), (rfileRead n >>= f).run ⟨bytes, []⟩ =
          (f (bytes.take n)).run ⟨bytes.drop n, [n]⟩ := fun _ => rfl
      refine ⟨bytes.drop n, ?_⟩
      rw [hread]
      rcases Json.loads depth (Utf8.decode (bytes.take n)) with (_ | _) | v <;> rfl

/-- The body is read only when the framing is found valid. -/
lemma Headers.requireBodyClientId_run : ∃ rest, (h.requireBodyClientId depth).run ⟨bytes, []⟩ =
    (((h.request bytes).requireBodyClientId depth).mapError Exit.stop,
      ⟨rest, if (h.request bytes).checkBodyFraming = none then h.bodyReads else []⟩) := by
  unfold Headers.requireBodyClientId Request.requireBodyClientId
  rw [h.checkBodyFraming_eq bytes]
  simp only [pure_bind]
  cases (h.request bytes).checkBodyFraming with
  | some e => exact ⟨bytes, rfl⟩
  | none =>
    obtain ⟨rest, hread⟩ := h.readJsonBody_run depth bytes
    refine ⟨rest, run_bind hread fun v => ?_⟩
    cases v with
    | none => rfl
    | some v =>
      cases v with
      | obj ms =>
        by_cases hms : ms = []
        · simp only [hms, if_true]
          rfl
        · simp only [hms, if_false]
          cases Json.get? ms (text "client_id") with
          | none => rfl
          | some id =>
            cases id with
            | str clientId => cases hid : clientIdRe clientId <;> simp only [hid] <;> rfl
            | _ => rfl
      | _ => rfl

namespace PostHandler

variable (P : PostHandler) (conn : Conn) (st : Store)

lemma handle_eq (req : Request) : P.handle depth conn st req =
    (req.requireBodyClientId depth >>= fun p => P.finish conn st p.1 p.2) := by
  cases P <;>
    simp only [handle, finish, handleReport, handleBan, handleUnban, reportCall, banCall] <;>
    cases req.requireBodyClientId depth <;> rfl

/-- The handler with the stream answers as the plain one. -/
lemma run_eq : ∃ rest, (P.run depth conn st h).run ⟨bytes, []⟩ =
    ((P.handle depth conn st (h.request bytes)).mapError Exit.stop,
      ⟨rest, if (h.request bytes).checkBodyFraming = none then h.bodyReads else []⟩) := by
  obtain ⟨rest, hbody⟩ := h.requireBodyClientId_run depth bytes
  rw [handle_eq]
  refine ⟨rest, run_bind hbody ?_⟩
  rintro ⟨clientId, ms⟩
  dsimp only
  cases P.finish conn st clientId ms <;> rfl

end PostHandler

/-! ### When a body is read -/

lemma Headers.declared_eq_some {h : Headers} {n : ℕ} : h.declared = some n ↔
    ∃ raw, h.transferEncoding = [] ∧ h.contentLength = [raw] ∧ stripBlanks raw ≠ [] ∧
      (∀ c ∈ stripBlanks raw, 48 ≤ c ∧ c ≤ 57) ∧ Json.digitsVal (stripBlanks raw) = n := by
  obtain ⟨tes, cls⟩ := h
  match tes, cls with
  | [], [raw] => simp [Headers.declared, and_assoc]
  | [], [] => simp [Headers.declared]
  | [], _ :: _ :: _ => simp [Headers.declared]
  | _ :: _, _ => simp [Headers.declared]

lemma Headers.checkBodyFraming_of_declared {n : ℕ} (hn : h.declared = some n) :
    (h.request bytes).checkBodyFraming =
        (if maxBodyBytes < n then some (413, "payload too large") else none) ∧
      (n ≤ maxBodyBytes → h.bodyReads = if n = 0 then [] else [n]) := by
  obtain ⟨raw, hte, hcl, hne, hdigits, rfl⟩ := declared_eq_some.mp hn
  obtain ⟨m, hparse, hm⟩ := parseContentLength_of_digits hne hdigits
  have hlt : maxBodyBytes < m ↔ maxBodyBytes < Json.digitsVal (stripBlanks raw) := by
    rcases hm with rfl | ⟨hm, hn⟩
    · rfl
    · simp [hm, hn]
  constructor
  · simp [Request.checkBodyFraming, Headers.request, hte, hcl, hparse, hlt]
  · intro hle
    obtain rfl := hm.resolve_right fun hm => absurd hm.2 (not_lt.mpr hle)
    simp [Headers.bodyReads, hcl, hparse, not_lt.mpr hle]

/-- Without a declared length the request is refused, or there is no header and nothing to read. -/
lemma Headers.checkBodyFraming_of_none (hn : h.declared = none) :
    (∃ error, (h.request bytes).checkBodyFraming = some (400, error)) ∨
      (h.request bytes).checkBodyFraming = none ∧ h.bodyReads = [] := by
  obtain ⟨tes, cls⟩ := h
  match tes, cls with
  | _ :: _, _ => exact .inl ⟨_, rfl⟩
  | [], [] => exact .inr ⟨rfl, rfl⟩
  | [], _ :: _ :: _ =>
    exact .inl ⟨"duplicate content-length", by simp [Request.checkBodyFraming, Headers.request]⟩
  | [], [raw] =>
    have hnot : ¬ (stripBlanks raw ≠ [] ∧ ∀ c ∈ stripBlanks raw, 48 ≤ c ∧ c ≤ 57) := by
      intro hdigits
      simp only [Headers.declared, if_pos hdigits] at hn
      cases hn
    refine .inl ⟨"bad request", ?_⟩
    simp [Request.checkBodyFraming, Headers.request, parseContentLength_of_not_digits hnot]

namespace PostHandler

variable (P : PostHandler) (conn : Conn) (st : Store)

/-- What a check refuses is answered with 400, unless it raises. -/
def Refuses {α : Type} (x : Except Stop α) : Prop :=
  ∀ r, x = .error (.reply r) → r.status = 400

lemma Refuses.bind {α β : Type} {x : Except Stop α} {f : α → Except Stop β} (hx : Refuses x)
    (hf : ∀ a, Refuses (f a)) : Refuses (x >>= f) := by
  intro r hr
  cases x with
  | error s =>
    obtain rfl : s = .reply r := by simpa [Bind.bind, Except.bind] using hr
    exact hx r rfl
  | ok a => exact hf a r hr

lemma refuses_ok {α : Type} (a : α) : Refuses (.ok a) := fun _ hr => nomatch hr

lemma refuses_textMember (ms : List (Text × Value)) (name : String) (ok : ℕ → Bool) :
    Refuses (textMember ms name ok) := by
  intro r hr
  unfold textMember at hr
  split at hr
  · split_ifs at hr
    cases hr
    rfl
  · cases hr
    rfl

lemma refuses_tsMember (ms : List (Text × Value)) : Refuses (tsMember ms) := by
  intro r hr
  unfold tsMember at hr
  split at hr
  · cases hr
  · split_ifs at hr
    cases hr
    rfl
  · cases hr
    rfl

lemma refuses_requireBodyClientId (hframe : (h.request bytes).checkBodyFraming = none) :
    Refuses ((h.request bytes).requireBodyClientId depth) := by
  unfold Request.requireBodyClientId
  rw [hframe]
  refine Refuses.bind ?_ fun v r hr => ?_
  · intro r hr
    unfold Request.readJsonBody at hr
    repeat' split at hr
    all_goals cases hr
  · repeat' split at hr
    all_goals
      cases hr
      try rfl

lemma refuses_answerCall {c : Except Stop StoreCall} (hc : Refuses c) :
    Refuses (answerCall st c) := by
  intro r hr
  unfold answerCall at hr
  split at hr
  · cases hr
    exact hc r rfl
  · split at hr <;> cases hr

lemma status_answerCall {c : Except Stop StoreCall} {p : Store × Reply}
    (h : answerCall st c = .ok p) : p.2.status ≠ 413 := by
  have hanswer : ∀ {c : StoreCall}, c.answer st = .ok p → p.2.status = 201 ∨ p.2.status = 200 := by
    rintro (c | ⟨clientId, reason, now⟩ | ⟨clientId, limit, offset⟩) hc
    all_goals
      obtain ⟨r, -, hr⟩ := Json.bind_eq_ok.mp hc
      cases hr
    · exact .inl rfl
    · exact .inr rfl
    · exact .inr rfl
  unfold answerCall at h
  split at h
  · cases h
  · split at h
    · cases h
      rcases hanswer ‹_› with h | h <;> simp [h]
    · cases h

lemma refuses_finish (clientId : Text) (ms : List (Text × Value)) :
    Refuses (P.finish conn st clientId ms) := by
  cases P with
  | report =>
    exact refuses_answerCall st <| (refuses_textMember _ _ _).bind fun _ =>
      (refuses_textMember _ _ _).bind fun _ => (refuses_tsMember _).bind fun _ => refuses_ok _
  | ban => exact refuses_answerCall st <| (refuses_textMember _ _ _).bind fun _ => refuses_ok _
  | unban =>
    intro r hr
    simp only [finish] at hr
    split at hr <;> cases hr

lemma status_finish {clientId : Text} {ms : List (Text × Value)} {p : Store × Reply}
    (h : P.finish conn st clientId ms = .ok p) : p.2.status ≠ 413 := by
  cases P with
  | report => exact status_answerCall st h
  | ban => exact status_answerCall st h
  | unban =>
    simp only [finish] at h
    split at h
    · cases h
      simp [Reply.status]
    · cases h

/-- After the framing no handler answers with 413. -/
lemma status_ne (hframe : (h.request bytes).checkBodyFraming = none) :
    (exitReply ((P.handle depth conn st (h.request bytes)).mapError Exit.stop)).status ≠ 413 := by
  have hrefuses : Refuses (P.handle depth conn st (h.request bytes)) := by
    rw [handle_eq]
    exact (refuses_requireBodyClientId h depth bytes hframe).bind fun p =>
      P.refuses_finish conn st _ _
  cases hres : P.handle depth conn st (h.request bytes) with
  | ok p =>
    rw [handle_eq] at hres
    obtain ⟨q, -, hfinish⟩ := Json.bind_eq_ok.mp hres
    exact P.status_finish conn st hfinish
  | error s =>
    cases s with
    | reply r =>
      show r.status ≠ 413
      simp [hrefuses r hres]
    | raised e => simp [Except.mapError, exitReply, Reply.status]

/-- A handler asks the stream for exactly the declared length, if that is between 1 and
`MAX_BODY_BYTES`, and for nothing else; the answer is 413 exactly when the declared length is
more; and no header makes it raise. -/
theorem run_framing :
    ((P.run depth conn st h).run ⟨bytes, []⟩).2.asked =
        h.declared.toList.filter (fun n => 1 ≤ n ∧ n ≤ maxBodyBytes) ∧
      ((exitReply ((P.run depth conn st h).run ⟨bytes, []⟩).1).status = 413 ↔
        ∃ n, h.declared = some n ∧ maxBodyBytes < n) ∧
      ((P.run depth conn st h).run ⟨bytes, []⟩).1 ≠ .error .valueError := by
  obtain ⟨rest, hrun⟩ := P.run_eq h depth bytes conn st
  simp only [hrun]
  refine ⟨?_, ?_, ?_⟩
  · cases hn : h.declared with
    | none =>
      rcases h.checkBodyFraming_of_none bytes hn with ⟨error, hframe⟩ | ⟨-, hreads⟩
      · simp [hframe]
      · simp [hreads]
    | some n =>
      obtain ⟨hframe, hreads⟩ := h.checkBodyFraming_of_declared bytes hn
      rcases Nat.lt_or_ge maxBodyBytes n with hlt | hle
      · simp [hframe, hlt]
      · rw [hframe, if_neg (not_lt.mpr hle), if_pos rfl, hreads hle]
        rcases Nat.eq_zero_or_pos n with rfl | hpos
        · rfl
        · simp [Nat.ne_of_gt hpos, hle, Nat.succ_le_of_lt hpos]
  · cases hframe : (h.request bytes).checkBodyFraming with
    | none =>
      refine iff_of_false (P.status_ne h depth bytes conn st hframe) ?_
      rintro ⟨n, hn, hlt⟩
      rw [(h.checkBodyFraming_of_declared bytes hn).1, if_pos hlt] at hframe
      cases hframe
    | some e =>
      have hhandle : P.handle depth conn st (h.request bytes) =
          .error (.reply (.error e.1 e.2)) := by
        rw [handle_eq, Request.requireBodyClientId, hframe]
        rfl
      rw [hhandle]
      show e.1 = 413 ↔ _
      cases hn : h.declared with
      | none =>
        rcases h.checkBodyFraming_of_none bytes hn with ⟨error, h400⟩ | ⟨hnone, -⟩
        · obtain rfl := Option.some.inj (hframe.symm.trans h400)
          simp
        · cases hnone.symm.trans hframe
      | some n =>
        have hdecl := (h.checkBodyFraming_of_declared bytes hn).1
        rw [hframe] at hdecl
        split_ifs at hdecl with hlt
        obtain rfl := Option.some.inj hdecl
        simp [hlt]
  · cases P.handle depth conn st (h.request bytes) <;> simp [Except.mapError]

end PostHandler

end Run

end Anticheat.Server
