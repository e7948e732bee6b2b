import Anticheat.Lib.QueryString
import Anticheat.Server.Store

/-!
# The request handlers of the server

The handlers of `ac_server.py` for requests that are authenticated: the checks on the framing and
the JSON of a body and on a query, the call of the store that they let through, and the answer.
`_dispatch` answers an exception that a handler does not catch with status 500.
-/

namespace Anticheat.Server

open Json (Text Number Value LoadError)
open QueryString

/-- The text of a string of the program. -/
def text (s : String) : Text := s.toList.map Char.toNat

/-- The answers of the handlers. -/
inductive Reply
  | error (status : ℕ) (error : String)
  /-- `{"ok": true}` -/
  | done (status : ℕ)
  | unbanned (wasBanned : Bool)
  | banned (ban : Option Ban)
  | reports (rows : List Report)
  deriving DecidableEq, Repr

def Reply.status : Reply → ℕ
  | error status _ => status
  | done status => status
  | unbanned _ => 200
  | banned _ => 200
  | reports _ => 200

/-- The exceptions that a handler lets through. -/
inductive Raised
  | recursion
  | sql (e : SqlError)
  deriving DecidableEq, Repr

/-- A handler that stops before its end, with an answer or an exception. -/
inductive Stop
  | reply (r : Reply)
  | raised (e : Raised)
  deriving DecidableEq, Repr

/-! ### The body -/

def maxBodyBytes : ℕ := 4096

/-- `CLIENT_ID_RE` -/
def clientIdRe (t : Text) : Bool :=
  t.all (fun c => (65 ≤ c && c ≤ 90) || (97 ≤ c && c ≤ 122) || (48 ≤ c && c ≤ 57) || c = 46 ||
    c = 95 || c = 45) && 1 ≤ t.length && t.length ≤ 128

/-- A request with a body: its `Transfer-Encoding` and `Content-Length` headers, and the bytes that
come after the headers. -/
structure Request where
  transferEncoding : Option Text
  contentLength : List Text
  rfile : List UInt8
  deriving DecidableEq, Repr

/-- `_parse_content_length` -/
def parseContentLength (raw : Text) : Option ℕ :=
  let blank : ℕ → Bool := fun c => c = 32 || c = 9
  let t := ((raw.dropWhile blank).reverse.dropWhile blank).reverse
  if t = [] ∨ ¬ t.all Json.isDigit then none
  else
    let digits := t.dropWhile (· = 48)
    if 4 < digits.length then some (maxBodyBytes + 1) else some (Json.digitsVal digits)

namespace Request

variable (req : Request)

/-- `_check_body_framing` -/
def checkBodyFraming : Option (ℕ × String) :=
  if req.transferEncoding.isSome then some (400, "chunked transfer-encoding not supported")
  else if 1 < req.contentLength.length then some (400, "duplicate content-length")
  else
    match parseContentLength (req.contentLength.headD (text "0")) with
    | none => some (400, "bad request")
    | some length => if maxBodyBytes < length then some (413, "payload too large") else none

/-- `_read_json_body`; `depth` is how deep the containers in the outermost one may be nested. -/
def readJsonBody (depth : ℕ) : Except Stop (Option Value) :=
  match parseContentLength (req.contentLength.headD (text "0")) with
  | none => .ok none
  | some length =>
    if length = 0 ∨ maxBodyBytes < length then .ok none
    else
      match Json.loads depth (Utf8.decode (req.rfile.take length)) with
      | .ok v => .ok (some v)
      | .error .value => .ok none
      | .error .recursion => .error (.raised .recursion)

/-- `_require_body_client_id`: the client id, and the members of the body. -/
def requireBodyClientId (depth : ℕ) : Except Stop (Text × List (Text × Value)) :=
  match req.checkBodyFraming with
  | some (status, error) => .error (.reply (.error status error))
  | none => do
    match ← req.readJsonBody depth with
    | some (.obj ms) =>
      if ms = [] then .error (.reply (.error 400 "bad request"))
      else
        match Json.get? ms (text "client_id") with
        | some (.str clientId) =>
          if clientIdRe clientId then .ok (clientId, ms)
          else .error (.reply (.error 400 "invalid client_id"))
        | _ => .error (.reply (.error 400 "invalid client_id"))
    | _ => .error (.reply (.error 400 "bad request"))

end Request

/-! ### The checks of the handlers, and the calls that they let through -/

/-- What a request finds: `_client_ip()`, the time, and what the database would say about its free
pages. The time fits 64 bits and the address is plain text. -/
structure Conn where
  clientIp : Text
  now : ℤ
  freelist : Option ℕ
  clientIp_ok : clientIp.any isSurrogate = false
  now_ok : -2 ^ 63 ≤ now ∧ now < 2 ^ 63

/-- A call of the store. -/
inductive StoreCall
  | addReport (c : Store.AddReport)
  | ban (clientId reason : Text) (now : ℤ)
  | listReports (clientId : Text) (limit offset : ℤ)
  deriving DecidableEq, Repr

variable (depth : ℕ) (U : DigitTable) (conn : Conn)

/-- The check of a member that is to be a text, by its length. -/
def textMember (ms : List (Text × Value)) (name : String) (ok : ℕ → Bool) : Except Stop Text :=
  match Json.get? ms (text name) with
  | some (.str t) =>
    if ok t.length then .ok t else .error (.reply (.error 400 ("invalid " ++ name)))
  | _ => .error (.reply (.error 400 ("invalid " ++ name)))

/-- The check of `ts`. -/
def tsMember (ms : List (Text × Value)) : Except Stop (Option Number) :=
  match Json.get? ms (text "ts") with
  | none => .ok none
  | some (.num n) =>
    if n.isFinite then .ok (some n) else .error (.reply (.error 400 "invalid ts"))
  | some _ => .error (.reply (.error 400 "invalid ts"))

/-- `_handle_report` up to its call of the store. -/
def reportCall (req : Request) : Except Stop StoreCall := do
  let (clientId, ms) ← req.requireBodyClientId depth
  let eventType ← textMember ms "event_type" (· ≤ 64)
  let detail ← textMember ms "detail" (· ≤ 2000)
  let clientTs ← tsMember ms
  return .addReport ⟨clientId, eventType, detail, clientTs, conn.clientIp, conn.now, conn.freelist⟩

/-- `_handle_ban` up to its call of the store. -/
def banCall (req : Request) : Except Stop StoreCall := do
  let (clientId, ms) ← req.requireBodyClientId depth
  let reason ← textMember ms "reason" fun n => 0 < n && n ≤ 500
  return .ban clientId reason conn.now

/-- A parameter of a listing: a single plain decimal integer; `none` is a `ValueError`. -/
def listingParam (query : Text) (name : String) (dflt : ℤ) : Option ℤ :=
  match values query (text name) with
  | [] => some dflt
  | [raw] => if isDigits U raw then (toInt U raw).map Int.ofNat else none
  | _ => none

/-- `_parse_listing_params` -/
def parseListingParams (query : Text) : Option (ℤ × ℤ) := do
  let limit ← listingParam U query "limit" Store.defaultListLimit
  if limit < 1 then none
  let offset ← listingParam U query "offset" 0
  return (min limit Store.maxListLimit, offset)

/-- `_handle_reports` up to its call of the store. -/
def listCall (clientId query : Text) : Except Stop StoreCall :=
  if clientIdRe clientId then
    match parseListingParams U query with
    | none => .error (.reply (.error 400 "invalid pagination"))
    | some (limit, offset) => .ok (.listReports clientId limit offset)
  else .error (.reply (.error 400 "invalid client_id"))

/-! ### The answers -/

variable (st : Store)

/-- The answer to a call of the store. -/
def StoreCall.answer : StoreCall → Except SqlError (Store × Reply)
  | addReport c => do
    let (st', _) ← st.addReport c
    return (st', .done 201)
  | ban clientId reason now => do
    let st' ← st.ban clientId reason now
    return (st', .done 200)
  | listReports clientId limit offset => do
    let rows ← st.listReports clientId limit offset
    return (st, .reports rows)

/-- The call, when the checks let the request through. -/
def answerCall (call : Except Stop StoreCall) : Except Stop (Store × Reply) :=
  match call with
  | .error s => .error s
  | .ok c =>
    match c.answer st with
    | .ok r => .ok r
    | .error e => .error (.raised (.sql e))

/-- `_handle_report` -/
def handleReport (req : Request) : Except Stop (Store × Reply) :=
  answerCall st (reportCall depth conn req)

/-- `_handle_ban` -/
def handleBan (req : Request) : Except Stop (Store × Reply) :=
  answerCall st (banCall depth conn req)

/-- `_handle_reports` -/
def handleReports (clientId query : Text) : Except Stop (Store × Reply) :=
  answerCall st (listCall U clientId query)

/-- `_handle_unban` -/
def handleUnban (req : Request) : Except Stop (Store × Reply) := do
  let (clientId, _) ← req.requireBodyClientId depth
  match st.unban clientId with
  | .ok (st', existed) => return (st', .unbanned existed)
  | .error e => throw (.raised (.sql e))

/-- `_handle_banned` -/
def handleBanned (clientId : Text) : Except Stop (Store × Reply) :=
  if clientIdRe clientId then
    match st.banStatus clientId with
    | .ok b => .ok (st, .banned b)
    | .error e => .error (.raised (.sql e))
  else .error (.reply (.error 400 "invalid client_id"))

/-- `_dispatch`: the store after the request, and the answer. -/
def dispatch (r : Except Stop (Store × Reply)) : Store × Reply :=
  match r with
  | .ok p => p
  | .error (.reply r) => (st, r)
  | .error (.raised _) => (st, .error 500 "internal error")

end Anticheat.Server
