import Anticheat.Report.Request
import Anticheat.Report.Resolver
import Anticheat.Server.Routes

/-!
# Sending a report

`ac_report` from the environment to the answer of the server. Every socket that it opens is closed
again, whatever fails in between. If it has nothing to say on standard error, the whole request has
been written and the server has answered with a status of success; and a server that holds the key
stores the report that the request carries.
-/

namespace Anticheat.Report

open CText HttpMessage Server

/-! ### Connecting -/

/-- The answers of `connect` on a socket that does not block. -/
inductive ConnectRet where
  | done
  | inProgress
  | error
  deriving DecidableEq, Repr

/-- What `ac_connect_timeout` meets: whether the flags can be read and set, and restored, what
`connect` says, whether `poll` finds the socket ready in time, and whether the socket then has no
error. -/
structure ConnectEnv where
  getfl : Bool
  setfl : Bool
  restore : Bool
  connect : ConnectRet
  ready : Bool
  noError : Bool
  deriving DecidableEq, Repr

/-- `O_NONBLOCK` -/
def oNonblock : UInt32 := 2048

/-- `ac_connect_timeout`: whether it returns 0, and the flags of the socket. -/
def acConnectTimeout (env : ConnectEnv) (flags : UInt32) : Bool × UInt32 :=
  if !env.getfl then (false, flags)
  else if !env.setfl then (false, flags)
  else
    let restored := if env.restore then flags else flags ||| oNonblock
    match env.connect with
    | .done => (true, restored)
    | .error => (false, restored)
    | .inProgress =>
      if !env.ready then (false, restored)
      else if !env.noError then (false, restored)
      else (true, restored)

abbrev Fd := ℕ

/-- What a report meets. -/
structure ReportEnv where
  url : Option Bytes
  key : Option Bytes
  machineId : Option Bytes
  hostname : Option Bytes
  time : Int64
  /-- the answer of `ac_resolve_timeout` -/
  addrs : Option (List AcResolvedAddr)
  /-- the answers of `socket` and `connect`, in turn -/
  socket : ℕ → Option Fd
  connect : ℕ → ConnectEnv
  /-- the flags of a new socket -/
  flags : UInt32
  /-- the answers of `write`, `none` for -1 -/
  write : ℕ → Option ℕ
  /-- what `read` gets of the answer, `none` for -1 -/
  read : Option Bytes
  /-- `strerror(errno)` -/
  strerror : String

/-- What `ac_report` prints. -/
inductive ReportMsg where
  | url (e : UrlError)
  | downgrade
  | unsafeHeader
  | bodyTooLarge
  | socket (err : String)
  | unixConnect (path : Bytes) (err : String)
  | resolve (host port : Bytes)
  | connect (host port : Bytes)
  | requestTooLarge
  | send (err : String)
  | short (sent len : ℕ)
  | status (code : ℤ) (body : Bytes)
  deriving DecidableEq, Repr

/-- The text of a message, without its line break; `url` is the value of `AC_REPORT_URL`. -/
def ReportMsg.text (url : Bytes) : ReportMsg → String
  | .url e => e.text url (stripScheme url)
  | .downgrade => "ac_report: AC_REPORT_URL uses an https:// scheme but the daemon sends plain " ++
      "HTTP (no TLS) — connecting without encryption; use a TLS-terminating reverse proxy or " ++
      "unix:// for privacy (see THREAT_MODEL.md)"
  | .unsafeHeader => "ac_report: AC_REPORT_URL host or AC_REPORT_KEY contains CR/LF, refusing " ++
      "to send"
  | .bodyTooLarge => "ac_report: report body too large to send"
  | .socket err => "ac_report: socket() failed: " ++ err
  | .unixConnect path err =>
    "ac_report: could not connect to unix socket " ++ bytesText path ++ ": " ++ err
  | .resolve host port =>
    "ac_report: could not resolve " ++ bytesText host ++ ":" ++ bytesText port
  | .connect host port =>
    "ac_report: could not connect to " ++ bytesText host ++ ":" ++ bytesText port
  | .requestTooLarge =>
    "ac_report: request too large to send (AC_REPORT_KEY/AC_REPORT_URL too long?)"
  | .send err => "ac_report: send failed: " ++ err
  | .short sent len => "ac_report: short write (" ++ toString sent ++ " of " ++ toString len ++
      " bytes)"
  | .status code body =>
    "ac_report: server response status " ++ toString code ++ ": " ++ bytesText body

/-- What is done with sockets. -/
inductive SockOp where
  | socket (fd : Fd)
  | connect (fd : Fd)
  | write (fd : Fd) (data : Bytes)
  | read (fd : Fd)
  | close (fd : Fd)
  deriving DecidableEq, Repr

/-- What a report leaves behind: what it did with sockets, what it printed, and the destinations
warned of. -/
structure Sent where
  ops : List SockOp
  log : List ReportMsg
  warned : List Bytes
  deriving DecidableEq, Repr

/-- The loop over the addresses: the socket that is connected, if any. -/
def connectLoop (env : ReportEnv) : ℕ → List AcResolvedAddr → Option Fd × List SockOp
  | _, [] => (none, [])
  | i, _ :: as =>
    match env.socket i with
    | none => connectLoop env (i + 1) as
    | some fd =>
      if (acConnectTimeout (env.connect i) env.flags).1 then (some fd, [.socket fd, .connect fd])
      else
        let (r, ops) := connectLoop env (i + 1) as
        (r, [.socket fd, .connect fd, .close fd] ++ ops)

/-- How the loop over `write` ends. -/
inductive WriteEnd where
  | all
  | short
  | failed
  deriving DecidableEq, Repr

/-- The loop over `write` for the rest of the request: how it ends, and what it got written, call
by call. -/
def writeLoop (write : ℕ → Option ℕ) (k : ℕ) (rest : Bytes) : WriteEnd × List Bytes :=
  if rest = [] then (.all, [])
  else
    match write k with
    | none => (.failed, [])
    | some w =>
      if rest.take w = [] then (.short, [])
      else
        let (e, more) := writeLoop write (k + 1) (rest.drop w)
        (e, rest.take w :: more)
termination_by rest.length
decreasing_by
  rename_i htake
  have hw : w ≠ 0 := by
    rintro rfl
    exact htake rfl
  have hpos := List.length_pos_iff.mpr ‹rest ≠ []›
  rw [List.length_drop]
  omega

/-- What is printed about the answer. -/
def answerLog (env : ReportEnv) : List ReportMsg :=
  let (code, body) : ℤ × Bytes :=
    match env.read with
    | none => (-1, bytes ("(read failed: " ++ env.strerror ++ ")"))
    | some [] => (-1, bytes "(connection closed, no response)")
    | some resp => (acHttpStatusCode (resp.take 63), cString (resp.take 60))
  if code < 200 ∨ 300 ≤ code then [.status code body] else []

/-- The part of `ac_report` after it is connected. -/
def exchange (env : ReportEnv) (fd : Fd) (host key body : Bytes) : List SockOp × List ReportMsg :=
  let req := requestText host key body
  if 2048 ≤ req.length then ([.close fd], [.requestTooLarge])
  else
    let (e, sent) := writeLoop env.write 0 req
    let ops := sent.map (.write fd)
    match e with
    | .failed => (ops ++ [.close fd], [.send env.strerror])
    | .short => (ops ++ [.close fd], [.short sent.flatten.length req.length])
    | .all => (ops ++ [.read fd, .close fd], answerLog env)

/-- The part of `ac_report` after the body is made. -/
def deliver (env : ReportEnv) (dest : AcReportDest) (key body : Bytes) :
    List SockOp × List ReportMsg :=
  if dest.isUnix then
    match env.socket 0 with
    | none => ([], [.socket env.strerror])
    | some fd =>
      if !(acConnectTimeout (env.connect 0) env.flags).1 then
        ([.socket fd, .connect fd, .close fd], [.unixConnect dest.sockPath env.strerror])
      else
        let (ops, msgs) := exchange env fd dest.host key body
        ([.socket fd, .connect fd] ++ ops, msgs)
  else if env.addrs.getD [] = [] then ([], [.resolve dest.host dest.port])
  else
    match connectLoop env 0 (env.addrs.getD []) with
    | (none, tried) => (tried, [.connect dest.host dest.port])
    | (some fd, tried) =>
      let (ops, msgs) := exchange env fd dest.host key body
      (tried ++ ops, msgs)

/-- `ac_report` -/
def acReport (env : ReportEnv) (eventType detail : Bytes) (warned : List Bytes) : Sent :=
  let url := env.url.getD []
  let key := env.key.getD []
  if url = [] || key = [] then ⟨[], [], warned⟩
  else
    match acReportParseUrl url with
    | .error e => ⟨[], [.url e], warned⟩
    | .ok dest =>
      let (warns, warned) := httpsWarn url dest warned
      let log := if warns then [.downgrade] else []
      if !acHeaderValueSafe dest.host || !acHeaderValueSafe key then
        ⟨[], log ++ [.unsafeHeader], warned⟩
      else
        match acReportBody (acReportClientId env.machineId env.hostname 128) eventType detail
            env.time with
        | none => ⟨[], log ++ [.bodyTooLarge], warned⟩
        | some body =>
          let (ops, msgs) := deliver env dest key body
          ⟨ops, log ++ msgs, warned⟩

/-! ### The sockets -/

/-- The open descriptors after what was done, if each was open when it was used. -/
def replay (fds : List Fd) : List SockOp → Option (List Fd)
  | [] => some fds
  | .socket fd :: ops => if fd ∈ fds then none else replay (fd :: fds) ops
  | .connect fd :: ops | .write fd _ :: ops | .read fd :: ops =>
    if fd ∈ fds then replay fds ops else none
  | .close fd :: ops => if fd ∈ fds then replay (fds.erase fd) ops else none

lemma replay_append (fds : List Fd) (ops ops' : List SockOp) :
    replay fds (ops ++ ops') = (replay fds ops).bind fun fds => replay fds ops' := by
  induction ops generalizing fds with
  | nil => rfl
  | cons op ops ih =>
    cases op <;> simp only [List.cons_append, replay] <;> split_ifs <;> simp [ih]

section Sockets

variable {env : ReportEnv} {fd : Fd} {fds : List Fd}

lemma replay_write (hfd : fd ∈ fds) (sent : List Bytes) :
    replay fds (sent.map (.write fd)) = some fds := by
  induction sent with
  | nil => rfl
  | cons b sent ih => simp [replay, hfd, ih]

/-- After the exchange the socket is closed. -/
lemma replay_exchange (env : ReportEnv) (fd : Fd) (fds : List Fd) (host key body : Bytes) :
    replay (fd :: fds) (exchange env fd host key body).1 = some fds := by
  have hmem : fd ∈ fd :: fds := List.mem_cons_self
  unfold exchange
  simp only
  split_ifs
  · simp [replay]
  · split <;> simp [replay_append, replay_write hmem, replay]

lemma replay_connectLoop (hfresh : ∀ i fd, env.socket i = some fd → fd ∉ fds) (i : ℕ)
    (as : List AcResolvedAddr) :
    replay fds (connectLoop env i as).2 = some ((connectLoop env i as).1.toList ++ fds) := by
  induction as generalizing i with
  | nil => rfl
  | cons a as ih =>
    rw [connectLoop]
    split
    · exact ih _
    · rename_i fd hfd
      have hnot := hfresh i fd hfd
      split_ifs
      · simp [replay, hnot]
      · simp [replay, hnot, ih]

end Sockets

/-! ### What is written -/

/-- The bytes that were written. -/
def written (ops : List SockOp) : Bytes :=
  ops.flatMap fun
    | .write _ data => data
    | _ => []

lemma written_append (ops ops' : List SockOp) :
    written (ops ++ ops') = written ops ++ written ops' := List.flatMap_append

lemma written_map_write (fd : Fd) (sent : List Bytes) :
    written (sent.map (.write fd)) = sent.flatten := by
  induction sent with
  | nil => rfl
  | cons b sent ih =>
    rw [List.map_cons, List.flatten_cons, ← ih]
    rfl

lemma written_connectLoop (env : ReportEnv) (i : ℕ) (as : List AcResolvedAddr) :
    written (connectLoop env i as).2 = [] := by
  induction as generalizing i with
  | nil => rfl
  | cons a as ih =>
    rw [connectLoop]
    split
    · exact ih _
    · split_ifs
      · rfl
      · exact ih (i + 1)

/-- A report fails before it is connected, with a message and no socket left open, or it makes the
exchange over a socket that is open. -/
lemma deliver_cases (env : ReportEnv) (dest : AcReportDest) (key body : Bytes) :
    (∃ ops msg, deliver env dest key body = (ops, [msg]) ∧
      ∀ fds, (∀ i fd, env.socket i = some fd → fd ∉ fds) → replay fds ops = some fds) ∨
    ∃ fd pre, deliver env dest key body = (pre ++ (exchange env fd dest.host key body).1,
        (exchange env fd dest.host key body).2) ∧ written pre = [] ∧
      ∀ fds, (∀ i fd, env.socket i = some fd → fd ∉ fds) → replay fds pre = some (fd :: fds) := by
  unfold deliver
  by_cases hunix : dest.isUnix = true
  · rw [if_pos hunix]
    cases hfd : env.socket 0 with
    | none => exact .inl ⟨_, _, rfl, fun _ _ => rfl⟩
    | some fd =>
      cases hconn : (acConnectTimeout (env.connect 0) env.flags).1 with
      | false =>
        refine .inl ⟨_, _, rfl, fun fds hfresh => ?_⟩
        simp [replay, hfresh 0 fd hfd]
      | true =>
        refine .inr ⟨fd, [.socket fd, .connect fd], rfl, rfl, fun fds hfresh => ?_⟩
        simp [replay, hfresh 0 fd hfd]
  · rw [if_neg hunix]
    by_cases hnone : env.addrs.getD [] = []
    · rw [if_pos hnone]
      exact .inl ⟨_, _, rfl, fun _ _ => rfl⟩
    · rw [if_neg hnone]
      have hwritten := written_connectLoop env 0 (env.addrs.getD [])
      have hloop := fun fds (hfresh : ∀ i fd, env.socket i = some fd → fd ∉ fds) =>
        replay_connectLoop hfresh 0 (env.addrs.getD [])
      generalize connectLoop env 0 (env.addrs.getD []) = r at hwritten hloop
      obtain ⟨_ | fd, tried⟩ := r
      · exact .inl ⟨_, _, rfl, hloop⟩
      · exact .inr ⟨fd, tried, rfl, hwritten, hloop⟩

/-- `AC_REPORT_URL` and `AC_REPORT_KEY` are both set. -/
def Configured (env : ReportEnv) : Prop := env.url.getD [] ≠ [] ∧ env.key.getD [] ≠ []

/-- A report is given up before there is anything to send, with a message unless it was not asked
for, or it goes to the destination of the address. -/
lemma acReport_cases (env : ReportEnv) (eventType detail : Bytes) (warned : List Bytes) :
    ((acReport env eventType detail warned).ops = [] ∧
      (Configured env → (acReport env eventType detail warned).log ≠ [])) ∨
    ∃ dest body log, Configured env ∧ acReportParseUrl (env.url.getD []) = .ok dest ∧
      OneLine dest.host ∧ OneLine (env.key.getD []) ∧
      acReportBody (acReportClientId env.machineId env.hostname 128) eventType detail env.time =
        some body ∧
      (acReport env eventType detail warned).ops = (deliver env dest (env.key.getD []) body).1 ∧
      (acReport env eventType detail warned).log =
        log ++ (deliver env dest (env.key.getD []) body).2 := by
  unfold acReport
  simp only [Bool.or_eq_true, decide_eq_true_eq]
  by_cases hconf : env.url.getD [] = [] ∨ env.key.getD [] = []
  · rw [if_pos hconf]
    exact .inl ⟨rfl, fun h => absurd hconf (not_or.mpr h)⟩
  rw [if_neg hconf]
  cases hurl : acReportParseUrl (env.url.getD []) with
  | error e => exact .inl ⟨rfl, fun _ => by simp⟩
  | ok dest =>
    simp only
    by_cases hsafe : acHeaderValueSafe dest.host = true ∧ acHeaderValueSafe (env.key.getD []) = true
    · rw [if_neg (by simp [hsafe])]
      cases hbody : acReportBody (acReportClientId env.machineId env.hostname 128) eventType detail
          env.time with
      | none => exact .inl ⟨rfl, fun _ => by simp⟩
      | some body =>
        exact .inr ⟨dest, body, _, not_or.mp hconf, rfl, acHeaderValueSafe_iff.mp hsafe.1,
          acHeaderValueSafe_iff.mp hsafe.2, rfl, rfl, rfl⟩
    · rw [if_pos (by simpa [-not_and, not_and_or] using hsafe)]
      exact .inl ⟨rfl, fun _ => by simp⟩

/-- Whatever goes wrong, `ac_report` uses no socket before it has it and none after it has closed
it, and leaves the descriptors open that were open before. -/
theorem acReport_sockets_closed (env : ReportEnv) (eventType detail : Bytes) (warned : List Bytes)
    (fds : List Fd) (hfresh : ∀ i fd, env.socket i = some fd → fd ∉ fds) :
    replay fds (acReport env eventType detail warned).ops = some fds := by
  rcases acReport_cases env eventType detail warned with
    ⟨hops, -⟩ | ⟨dest, body, log, -, -, -, -, -, hops, -⟩
  · rw [hops]
    rfl
  · rw [hops]
    rcases deliver_cases env dest (env.key.getD []) body with
      ⟨ops, msg, heq, hclosed⟩ | ⟨fd, pre, heq, -, hpre⟩
    · rw [heq]
      exact hclosed fds hfresh
    · rw [heq, replay_append, hpre fds hfresh]
      exact replay_exchange env fd fds _ _ _

/-- If the loop does not fail or come up short, it writes all. -/
lemma flatten_writeLoop (write : ℕ → Option ℕ) (k : ℕ) (rest : Bytes)
    (h : (writeLoop write k rest).1 = .all) : (writeLoop write k rest).2.flatten = rest := by
  fun_induction writeLoop write k rest with
  | case1 => rfl
  | case2 => cases h
  | case3 => cases h
  | case4 k rest hrest w hw htake e more heq ih =>
    rw [heq] at ih
    rw [List.flatten_cons, ih h, List.take_append_drop]

/-- The server has answered, with a status of success. -/
def Answered (env : ReportEnv) : Prop :=
  ∃ resp code minor a b c tail, env.read = some resp ∧
    StatusLine (resp.take 63) code minor a b c tail ∧ 200 ≤ code ∧ code < 300

lemma answered_of_answerLog {env : ReportEnv} (h : answerLog env = []) : Answered env := by
  unfold answerLog at h
  cases hread : env.read with
  | none => simp [hread] at h
  | some resp =>
    cases resp with
    | nil => simp [hread] at h
    | cons b resp =>
      simp only [hread] at h
      split_ifs at h with hcode
      rw [not_or, not_lt, not_le] at hcode
      obtain ⟨code, hcode'⟩ := Int.eq_ofNat_of_zero_le ((by decide : (0 : ℤ) ≤ 200).trans hcode.1)
      obtain ⟨minor, a, b', c, tail, hline⟩ := acHttpStatusCode_eq_iff.mp hcode'
      exact ⟨_, code, minor, a, b', c, tail, hread, hline, by omega, by omega⟩

lemma exchange_of_silent {env : ReportEnv} {fd : Fd} {host key body : Bytes}
    (h : (exchange env fd host key body).2 = []) :
    written (exchange env fd host key body).1 = requestText host key body ∧ Answered env := by
  unfold exchange at h ⊢
  simp only at h ⊢
  by_cases hlen : 2048 ≤ (requestText host key body).length
  · rw [if_pos hlen] at h
    cases h
  rw [if_neg hlen] at h ⊢
  have hall := flatten_writeLoop env.write 0 (requestText host key body)
  generalize writeLoop env.write 0 (requestText host key body) = r at h hall
  obtain ⟨e, sent⟩ := r
  cases e with
  | failed => cases h
  | short => cases h
  | all =>
    refine ⟨?_, answered_of_answerLog h⟩
    rw [written_append, written_map_write]
    simpa [written] using hall rfl

/-- A report that was asked for and about which nothing is printed: the request was written in full,
however `write` split it, and the server answered with a status of success. -/
lemma acReport_of_silent {env : ReportEnv} {eventType detail : Bytes} {warned : List Bytes}
    (hconf : Configured env) (hlog : (acReport env eventType detail warned).log = []) :
    ∃ host body, OneLine host ∧ OneLine (env.key.getD []) ∧
      acReportBody (acReportClientId env.machineId env.hostname 128) eventType detail env.time =
        some body ∧
      written (acReport env eventType detail warned).ops =
        requestText host (env.key.getD []) body ∧ Answered env := by
  rcases acReport_cases env eventType detail warned with
    ⟨-, hne⟩ | ⟨dest, body, log, -, -, hhost, hkey, hbody, hops, heq⟩
  · exact absurd hlog (hne hconf)
  · rw [heq, List.append_eq_nil_iff] at hlog
    rcases deliver_cases env dest (env.key.getD []) body with
      ⟨ops, msg, heq', -⟩ | ⟨fd, pre, heq', hpre, -⟩
    · rw [heq'] at hlog
      cases hlog.2
    · rw [heq'] at hlog hops
      obtain ⟨hwritten, hans⟩ := exchange_of_silent hlog.2
      refine ⟨dest.host, body, hhost, hkey, hbody, ?_, hans⟩
      rw [hops, written_append, hpre, List.nil_append, hwritten]

/-! ### What the server makes of it -/

section Delivered

open Json (Text)

variable {T : Type*}

def asText (l : Bytes) : Text := l.map UInt8.toNat

/-- The name of a method in a request line. -/
def methodName : Method → Bytes
  | .get => bytes "GET"
  | .post => bytes "POST"

/-- What was written reaches the server as this request: the words of the request line, the fields
that are looked up, and what comes after the header. -/
structure Arrives (wire : Bytes) (a : Arrival T) (m : Message) (path : Bytes) : Prop where
  read : read wire = some m
  start : m.start = methodName a.method ++ [32] ++ path ++ bytes " HTTP/1.1"
  path : a.path = asText path
  authorization : a.authorization = (get (bytes "authorization") m.fields).map asText
  req : a.req = ⟨(get (bytes "transfer-encoding") m.fields).map asText,
    (getAll (bytes "content-length") m.fields).map asText, m.rest⟩

/-- The request of a report arrives as a `POST` to `/report` with the key and the body. -/
lemma Arrives.report {host key body : Bytes} (hhost : OneLine host) (hkey : OneLine key)
    {a : Arrival T} {m : Message} {path : Bytes}
    (h : Arrives (requestText host key body) a m path) :
    a.method = .post ∧ a.path = text "/report" ∧
      a.authorization = some (text "Bearer " ++ asText key) ∧ a.req = sent body := by
  obtain ⟨hread, hstart, hpath, hauth, hreq⟩ := h
  obtain rfl := Option.some.inj ((read_requestText hhost hkey body).symm.trans hread)
  have hget : get (bytes "authorization")
      ((requestFields host key body).map fun f => (f.1, f.2.dropWhile isBlank)) =
      some (bytes "Bearer " ++ key) := rfl
  have hlength : getAll (bytes "content-length")
      ((requestFields host key body).map fun f => (f.1, f.2.dropWhile isBlank)) =
      [(printDec body.length).dropWhile isBlank] := rfl
  have hchunked : get (bytes "transfer-encoding")
      ((requestFields host key body).map fun f => (f.1, f.2.dropWhile isBlank)) = none := rfl
  have hpost : a.method = .post := by
    cases hm : a.method with
    | post => rfl
    | get =>
      rw [hm] at hstart
      cases hstart
  refine ⟨hpost, ?_, ?_, ?_⟩
  · rw [hpost] at hstart
    have hfull : bytes "POST " ++ (bytes "/report" ++ bytes " HTTP/1.1") =
        bytes "POST " ++ (path ++ bytes " HTTP/1.1") :=
      (by decide : _ = bytes "POST /report HTTP/1.1").trans hstart
    rw [hpath, ← List.append_cancel_right (List.append_cancel_left hfull)]
    decide
  · rw [hauth, hget]
    simp only [Option.map_some, asText, List.map_append]
    rfl
  · rw [hreq, hlength, hchunked, dropWhile_isBlank_printDec]
    rfl

lemma anyM_compareDigest {got : Text} {keys : List Text} (hgot : got ∈ keys)
    (hascii : ∀ k ∈ keys, k.all (· < 128) = true) : keys.anyM (compareDigest got) = .ok true := by
  have hg := hascii got hgot
  induction keys with
  | nil => cases hgot
  | cons k keys ih =>
    obtain ⟨hk, hkeys⟩ := List.forall_mem_cons.mp hascii
    rw [List.anyM, compareDigest, hg, hk]
    by_cases heq : got = k
    · simp [heq, bind, Except.bind, pure, Except.pure]
    · have hrest := ih ((List.mem_cons.mp hgot).resolve_left heq) hkeys
      simpa [heq, bind, Except.bind] using hrest

/-- With the right key the server's checks let the report through to its handler. -/
lemma route_report {cfg : Config} {a : Arrival T} {key : Bytes} (hpost : a.method = .post)
    (hpath : a.path = text "/report")
    (hauth : a.authorization = some (text "Bearer " ++ asText key))
    (hkey : asText key ∈ cfg.keys.report)
    (hascii : ∀ k ∈ cfg.keys.report, k.all (· < 128) = true) (freelist : Option ℕ) (st : Store) :
    route cfg a freelist st = liftStop (handleReport cfg.depth (a.conn freelist) st a.req) := by
  have hparse : Url.parse cfg.hostOk (text "/report") = some (text "/report", []) := rfl
  have hunquote : QueryString.unquote (text "/report") = text "/report" := by decide
  have hbearer : bearer (some (text "Bearer " ++ asText key)) = some (asText key) := rfl
  have hauthed : authed a.authorization cfg.keys.report = .ok true := by
    rw [hauth, authed, hbearer]
    exact anyM_compareDigest hkey hascii
  rw [route, hpath, hparse]
  simp only [hunquote, hpost]
  rw [if_neg (by decide), postRoute, if_pos rfl]
  simp [routeGuarded, publicHandlers, Routed.call, hauthed]

/-- A report that was asked for and about which nothing is printed has been answered with a status
of success, and to a server that has the key it is a report that it stores: with the client, the
type, the time and the beginning of the detail that were meant, and nothing that the address or the
key could add. -/
theorem acReport_delivered (env : ReportEnv) (event : EventType) (detail : Bytes)
    (warned : List Bytes) (hconf : Configured env)
    (hid : clientIdRe (asText (acReportClientId env.machineId env.hostname 128)) = true)
    (hlog : (acReport env event.name detail warned).log = []) {cfg : Config}
    (hkey : asText (env.key.getD []) ∈ cfg.keys.report)
    (hascii : ∀ k ∈ cfg.keys.report, k.all (· < 128) = true) {a : Arrival T} {m : Message}
    {path : Bytes} (ha : Arrives (written (acReport env event.name detail warned).ops) a m path)
    (freelist : Option ℕ) {st : Store} (hseq : st.seq < Store.maxRowid) :
    Answered env ∧ ∃ st', st.addReport (stored (a.conn freelist)
        (acReportClientId env.machineId env.hostname 128) event detail env.time) =
          .ok (st', a.now) ∧
      route cfg a freelist st = .ok (st', .done 201) := by
  obtain ⟨host, body, hhost, hkeyLine, hbody, hwritten, hans⟩ := acReport_of_silent hconf hlog
  rw [hwritten] at ha
  obtain ⟨hpost, hpath, hauth, hreq⟩ := ha.report hhost hkeyLine
  generalize acReportClientId env.machineId env.hostname 128 = clientId at hid hbody ⊢
  obtain rfl : body = reportBytes clientId event detail env.time :=
    Option.some.inj (hbody.symm.trans (acReportBody_eq clientId event detail env.time hid))
  obtain ⟨st', hadd⟩ := StoreCall.addReport_ok hseq
    (bind_stored (a.conn freelist) clientId event detail env.time hid)
  refine ⟨hans, st', hadd, ?_⟩
  rw [route_report hpost hpath hauth hkey hascii, hreq, handleReport,
    reportCall_sent cfg.depth (a.conn freelist) clientId event detail env.time hid]
  simp [answerCall, StoreCall.answer, hadd, bind, Except.bind, pure, Except.pure, liftStop]

/-- A report over a socket of the local host, of which `write` takes 100 bytes at a time. -/
def localEnv : ReportEnv where
  url := some (bytes "unix:///run/ac.sock")
  key := some (bytes "local-report-key-1")
  machineId := none
  hostname := some (bytes "box 1")
  time := 1700000000
  addrs := none
  socket _ := some 7
  connect _ := ⟨true, true, true, .done, false, false⟩
  flags := 2
  write _ := some 100
  read := some (bytes "HTTP/1.0 201 Created\r\n")
  strerror := ""

theorem acReport_sockets_closed_local :
    replay [3] (acReport localEnv (bytes "ALERT") (bytes "ptrace") []).ops = some [3] :=
  acReport_sockets_closed localEnv (bytes "ALERT") (bytes "ptrace") [] [3] fun _ _ h => by
    cases h
    decide

def localReport : Sent := acReport localEnv EventType.alert.name (bytes "ptrace") []

/-- The message that the server reads. -/
def localMessage : Message := (read (written localReport.ops)).getD ⟨[], [], []⟩

def localArrival : Arrival ℤ where
  method := .post
  path := asText (bytes "/report")
  authorization := (get (bytes "authorization") localMessage.fields).map asText
  req := ⟨(get (bytes "transfer-encoding") localMessage.fields).map asText,
    (getAll (bytes "content-length") localMessage.fields).map asText, localMessage.rest⟩
  clientIp := text "unix"
  clock := 0
  now := 1700000001
  clientIp_ok := by decide
  now_ok := by decide

def localConfig : Config :=
  ⟨⟨[text "local-report-key-1"], [text "local-admin-key-1"], by decide +kernel⟩, 5, .ascii,
    fun _ => false⟩

lemma read_localReport : read (written localReport.ops) = some localMessage := by decide +kernel

lemma start_localMessage : localMessage.start = bytes "POST /report HTTP/1.1" := by decide +kernel

lemma arrives_localReport :
    Arrives (written localReport.ops) localArrival localMessage (bytes "/report") where
  read := read_localReport
  start := start_localMessage.trans (by decide)
  path := rfl
  -- `rfl` here would run the whole report
  authorization := by simp only [localArrival]
  req := by simp only [localArrival]

lemma log_localReport : localReport.log = [] := by decide +kernel

theorem acReport_delivered_local :
    Answered localEnv ∧ ∃ st', (Store.new 1 1 1).addReport (stored (localArrival.conn none)
        (acReportClientId none (some (bytes "box 1")) 128) .alert (bytes "ptrace") 1700000000) =
          .ok (st', 1700000001) ∧
      route localConfig localArrival none (Store.new 1 1 1) = .ok (st', .done 201) :=
  acReport_delivered localEnv .alert (bytes "ptrace") [] ⟨by decide, by decide⟩
    (clientIdRe_acReportClientId rfl _) log_localReport (by decide +kernel) (by decide +kernel)
    arrives_localReport none (by decide)

end Delivered

end Anticheat.Report
