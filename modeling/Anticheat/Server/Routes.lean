import Anticheat.Lib.Url
import Anticheat.Server.Handlers
import Anticheat.Server.RateLimiter

/-!
# Keys, routes and the server as a whole

The key checks of `main`, the bearer tokens, the guard `_route_guarded` and the decorator
`_requires_auth` around every handler, `_do_POST` and `_do_GET`, and a sequence of requests served
one after the other.
-/

namespace Anticheat.Server

open Json (Text)
open QueryString

/-! ### The keys -/

/-- The keys of both tiers, the current one and the one of a rotation. They do not overlap. -/
structure Keys where
  report : List Text
  admin : List Text
  disjoint : ∀ k ∈ report, k ∉ admin
  deriving Repr

def minKeyLength : ℕ := 16

/-- `_check_key_strength`; an error is the text with which `main` refuses to start. -/
def checkKeyStrength (key : Option Text) (flagName : String) : Except String Unit :=
  match key with
  | none => .ok ()
  | some key =>
    if key.length < minKeyLength then
      .error ("ac_server: " ++ flagName ++ " is only " ++ toString key.length ++
        " character(s) long -- keys must be at least " ++ toString minKeyLength ++
        " characters (e.g. `python3 -c \"import secrets; print(secrets.token_urlsafe(32))\"`) -- " ++
        "refusing to start with a brute-forceable bearer key\n")
    else if key.dedup.length < 8 then
      .error ("ac_server: " ++ flagName ++ " uses only " ++ toString key.dedup.length ++
        " distinct character(s) across " ++ toString key.length ++
        " characters -- too predictable to be a real secret -- refusing to start\n")
    else .ok ()

/-- `if not key` -/
def isFalsy (key : Option Text) : Bool := (key.getD []).isEmpty

/-- The part of `main` that is about keys. -/
def mainKeys (reportKey adminKey reportKeyOld adminKeyOld : Option Text) : Except String Keys := do
  if isFalsy reportKey || isFalsy adminKey then
    throw ("ac_server: --report-key/--admin-key (or AC_SERVER_REPORT_KEY/AC_SERVER_ADMIN_KEY) " ++
      "are required -- refusing to start with no auth configured\n")
  checkKeyStrength reportKey "--report-key/AC_SERVER_REPORT_KEY"
  checkKeyStrength adminKey "--admin-key/AC_SERVER_ADMIN_KEY"
  checkKeyStrength reportKeyOld "--report-key-old/AC_SERVER_REPORT_KEY_OLD"
  checkKeyStrength adminKeyOld "--admin-key-old/AC_SERVER_ADMIN_KEY_OLD"
  let report := reportKey.toList ++ reportKeyOld.toList.filter (· ≠ [])
  let admin := adminKey.toList ++ adminKeyOld.toList.filter (· ≠ [])
  if h : ∀ k ∈ report, k ∉ admin then return ⟨report, admin, h⟩
  else throw ("ac_server: a report key and an admin key (current or -old) are identical -- " ++
    "report and admin tiers must not overlap\n")

/-- What `_check_key_strength` asks of a key. -/
def Strong (key : Text) : Prop := minKeyLength ≤ key.length ∧ 8 ≤ key.dedup.length

lemma strong_of_checkKeyStrength {key : Option Text} {flagName : String}
    (h : checkKeyStrength key flagName = .ok ()) : ∀ k ∈ key, Strong k := by
  rintro k rfl
  simp only [checkKeyStrength] at h
  split_ifs at h with hlen hdistinct
  exact ⟨not_lt.mp hlen, not_lt.mp hdistinct⟩

/-- Every key that the server starts with is strong. -/
theorem strong_of_mainKeys {reportKey adminKey reportKeyOld adminKeyOld : Option Text} {keys : Keys}
    (h : mainKeys reportKey adminKey reportKeyOld adminKeyOld = .ok keys) :
    ∀ k, k ∈ keys.report ∨ k ∈ keys.admin → Strong k := by
  have hlist : ∀ {key keyOld : Option Text}, (∀ k ∈ key, Strong k) → (∀ k ∈ keyOld, Strong k) →
      ∀ k ∈ key.toList ++ keyOld.toList.filter (· ≠ []), Strong k := by
    intro key keyOld hkey hold k hk
    rcases List.mem_append.mp hk with hk | hk
    · exact hkey k (Option.mem_toList.mp hk)
    · exact hold k (Option.mem_toList.mp (List.mem_filter.mp hk).1)
  by_cases hfalsy : isFalsy reportKey || isFalsy adminKey
  · rw [mainKeys, if_pos hfalsy] at h
    cases h
  rw [mainKeys, if_neg hfalsy] at h
  obtain ⟨_, hrep, h⟩ := Json.bind_eq_ok.mp h
  obtain ⟨_, hadm, h⟩ := Json.bind_eq_ok.mp h
  obtain ⟨_, hrepOld, h⟩ := Json.bind_eq_ok.mp h
  obtain ⟨_, hadmOld, h⟩ := Json.bind_eq_ok.mp h
  dsimp only at h
  split at h
  · cases h
    rintro k (hk | hk)
    · exact hlist (strong_of_checkKeyStrength hrep) (strong_of_checkKeyStrength hrepOld) k hk
    · exact hlist (strong_of_checkKeyStrength hadm) (strong_of_checkKeyStrength hadmOld) k hk
  · cases h

/-! ### Authentication -/

/-- The exceptions that end a request: one of the URL parser, one of `hmac.compare_digest`, and
those of the handlers. -/
inductive Fault
  | value
  | type
  | handler (e : Raised)
  deriving DecidableEq, Repr

/-- A request that ends before its handler does, with an answer or an exception. -/
inductive Abort
  | reply (r : Reply)
  | fault (f : Fault)
  deriving DecidableEq, Repr

/-- `_bearer`, from the first `Authorization` header. -/
def bearer (authorization : Option Text) : Option Text :=
  let auth := authorization.getD []
  if (text "Bearer ").isPrefixOf auth then some (auth.drop 7) else none

/-- `hmac.compare_digest` takes strings of ASCII characters only. -/
def compareDigest (a b : Text) : Except Fault Bool :=
  if a.all (· < 128) && b.all (· < 128) then .ok (a = b) else .error .type

/-- `_authed`: the keys are tried in turn. -/
def authed (authorization : Option Text) (keys : List Text) : Except Fault Bool :=
  match bearer authorization with
  | none => .ok false
  | some got => keys.anyM (compareDigest got)

/-- A routed method of the handler class: its name, the keys that `_requires_auth` marked it with,
and what it does. -/
structure Routed where
  name : String
  authKeys : Option (List Text)
  body : Except Stop (Store × Reply)

/-- `PUBLIC_HANDLERS` -/
def publicHandlers : List String := []

/-- What the handler's outcome is to the request. -/
def liftStop (r : Except Stop (Store × Reply)) : Except Abort (Store × Reply) :=
  match r with
  | .ok p => .ok p
  | .error (.reply r) => .error (.reply r)
  | .error (.raised e) => .error (.fault (.handler e))

/-- Calling the method runs the wrapper of `_requires_auth`, if it has one. -/
def Routed.call (h : Routed) (authorization : Option Text) : Except Abort (Store × Reply) :=
  match h.authKeys with
  | none => liftStop h.body
  | some keys =>
    match authed authorization keys with
    | .error f => .error (.fault f)
    | .ok false => .error (.reply (.error 401 "unauthorized"))
    | .ok true => liftStop h.body

/-- `_route_guarded` -/
def routeGuarded (authorization : Option Text) (h : Routed) : Except Abort (Store × Reply) :=
  if h.name ∈ publicHandlers then h.call authorization
  else if h.authKeys.isNone then .error (.reply (.error 401 "unauthorized"))
  else h.call authorization

/-! ### Requests -/

inductive Method
  | get
  | post
  deriving DecidableEq, Repr

/-- A request as it reaches `do_GET` or `do_POST`: what the client sent, the address that
`_client_ip()` gives, and the clocks. -/
structure Arrival (T : Type*) where
  method : Method
  path : Text
  authorization : Option Text
  req : Request
  clientIp : Text
  clock : T
  now : ℤ
  clientIp_ok : clientIp.any isSurrogate = false
  now_ok : -2 ^ 63 ≤ now ∧ now < 2 ^ 63

/-- The request with what the database would say about its free pages. -/
def Arrival.conn {T : Type*} (a : Arrival T) (freelist : Option ℕ) : Conn :=
  ⟨a.clientIp, a.now, freelist, a.clientIp_ok, a.now_ok⟩

/-- What the server is run with: the keys, how deep the containers of a body may be nested, the
digits and the hosts that the library knows. -/
structure Config where
  keys : Keys
  depth : ℕ
  digits : DigitTable
  hostOk : Text → Bool

variable {T : Type*} (cfg : Config) (a : Arrival T) (freelist : Option ℕ) (st : Store)

/-- The handler for a decoded path of a `POST`. -/
def postRoute (path : Text) : Option Routed :=
  if path = text "/report" then some ⟨"_handle_report", some cfg.keys.report,
    handleReport cfg.depth (a.conn freelist) st a.req⟩
  else if path = text "/ban" then some ⟨"_handle_ban", some cfg.keys.admin,
    handleBan cfg.depth (a.conn freelist) st a.req⟩
  else if path = text "/unban" then some ⟨"_handle_unban", some cfg.keys.admin,
    handleUnban cfg.depth st a.req⟩
  else none

/-- The handler for a decoded path of a `GET`. -/
def getRoute (path query : Text) : Option Routed :=
  if (text "/banned/").isPrefixOf path then some ⟨"_handle_banned", some cfg.keys.admin,
    handleBanned st (path.drop 8)⟩
  else if (text "/reports/").isPrefixOf path then some ⟨"_handle_reports", some cfg.keys.admin,
    handleReports cfg.digits st (path.drop 9) query⟩
  else none

/-- `_do_POST` and `_do_GET` after the rate limiter. -/
def route : Except Abort (Store × Reply) :=
  match Url.parse cfg.hostOk a.path with
  | none => .error (.fault .value)
  | some (path, query) =>
    let path := unquote path
    let handler :=
      if path = [] then none
      else
        match a.method with
        | .post => postRoute cfg a freelist st path
        | .get => getRoute cfg st path query
    match handler with
    | none => .error (.reply (.error 404 "not found"))
    | some h => routeGuarded a.authorization h

/-- `_dispatch`: the store after the request, and the answer. -/
def dispatchRoute (r : Except Abort (Store × Reply)) : Store × Reply :=
  match r with
  | .ok p => p
  | .error (.reply r) => (st, r)
  | .error (.fault _) => (st, .error 500 "internal error")

/-! ### The server -/

/-- An answer, with the `Retry-After` header of a request that was refused. -/
structure Response (T : Type*) where
  reply : Reply
  retryAfter : Option T
  deriving DecidableEq, Repr

/-- The state that requests share. -/
structure ServerState (T : Type*) where
  limiter : RateLimiter Text T
  store : Store

variable [LinearOrder T] [Sub T] (s : ServerState T)

/-- `do_GET` and `do_POST` -/
def serve : ServerState T × Response T :=
  let (limiter, allowed) := s.limiter.allow ⟨a.clock, a.clientIp⟩
  if allowed then
    let (store, reply) := dispatchRoute s.store (route cfg a freelist s.store)
    (⟨limiter, store⟩, ⟨reply, none⟩)
  else (⟨limiter, s.store⟩, ⟨.error 429 "rate limited", some limiter.window⟩)

/-- The answers to a sequence of requests, each with what the database says about its free pages
then. -/
def serveAll (s : ServerState T) : List (Arrival T × Option ℕ) → ServerState T × List (Response T)
  | [] => (s, [])
  | (a, freelist) :: as =>
    let (s', r) := serve cfg a freelist s
    let (s'', rs) := serveAll s' as
    (s'', r :: rs)

end Anticheat.Server
