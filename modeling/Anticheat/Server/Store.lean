import Anticheat.Lib.Json
import Anticheat.Lib.Retention

/-!
# The report store of the server

`Store` of `ac_server.py`: the two tables `reports` and `bans` of the database, and the statements
run on them. A table is the list of its rows in the order of their ids. A statement whose bound
values the database refuses raises, and its transaction is rolled back.
-/

namespace Anticheat.Server

open Json (Text Number)
open Retention

/-- What a statement can raise. -/
inductive SqlError
  /-- Python int too large to convert to SQLite INTEGER -/
  | overflow
  /-- surrogates not allowed -/
  | unicodeEncode
  /-- the table has used up its ids -/
  | full
  deriving DecidableEq, Repr

/-- A value bound to a placeholder of a statement. -/
inductive SqlParam
  | none
  | num (n : Number)
  | text (t : Text)
  deriving DecidableEq, Repr

def isSurrogate (c : ℕ) : Bool := 0xD800 ≤ c && c ≤ 0xDFFF

/-- Binding a value: integers have to fit 64 bits and text has to be encodable as UTF-8. -/
def SqlParam.bind : SqlParam → Except SqlError Unit
  | none => .ok ()
  | num (.int z) => if -2 ^ 63 ≤ z ∧ z < 2 ^ 63 then .ok () else .error .overflow
  | num _ => .ok ()
  | text t => if t.any isSurrogate then .error .unicodeEncode else .ok ()

/-- The values of a statement are bound in order. -/
def bindAll (ps : List SqlParam) : Except SqlError Unit := ps.forM SqlParam.bind

/-- A row of `reports`. -/
structure Report where
  id : ℕ
  clientId : Text
  eventType : Text
  detail : Text
  clientTs : Option Number
  receivedAt : ℤ
  sourceAddr : Text
  deriving DecidableEq, Repr

/-- A row of `bans`. -/
structure Ban where
  clientId : Text
  reason : Text
  bannedAt : ℤ
  deriving DecidableEq, Repr

/-- The database and the settings it was opened with; a cap of 0 is off. -/
structure Store where
  maxReportsPerClient : ℕ
  maxTotalReports : ℕ
  vacuumInterval : ℕ
  reports : List Report
  /-- The largest id ever given out in `reports` (`AUTOINCREMENT`). -/
  seq : ℕ
  bans : List Ban
  writesSinceVacuum : ℕ
  deriving DecidableEq, Repr

namespace Store

/-- A store on a new file. -/
def new (maxReportsPerClient maxTotalReports vacuumInterval : ℕ) : Store :=
  ⟨maxReportsPerClient, maxTotalReports, vacuumInterval, [], 0, [], 0⟩

def maxRowid : ℕ := 2 ^ 63 - 1

def vacuumMinFreelistPages : ℕ := 100
def maxListLimit : ℤ := 1000
def defaultListLimit : ℤ := 200

/-- `_TRIM_CLIENT_SQL`: the row that is `cap` rows below the newest one of the client, and what is
deleted at or below it. -/
def trimClient (clientId : Text) (cap : ℕ) (rows : List Report) : List Report :=
  match overCap Report.id cap (rows.filter (·.clientId = clientId)) with
  | none => rows
  | some b => rows.filter fun r => ¬ (r.clientId = clientId ∧ r.id ≤ b)

/-- `_TRIM_GLOBAL_SQL` -/
def trimGlobal (cap : ℕ) (rows : List Report) : List Report :=
  match overCap Report.id cap rows with
  | none => rows
  | some b => rows.filter fun r => ¬ r.id ≤ b

/-- The arguments of `add_report`, the time it reads and what `PRAGMA freelist_count` answers it
(`none` when that fails). -/
structure AddReport where
  clientId : Text
  eventType : Text
  detail : Text
  clientTs : Option Number
  sourceAddr : Text
  now : ℤ
  freelist : Option ℕ
  deriving DecidableEq, Repr

variable (st : Store)

/-- The row that the `INSERT` of a call makes. The column of `client_ts` has integer affinity, so
that a float without a fraction comes back as an integer; it is kept as it was sent here. -/
def newRow (c : AddReport) : Report :=
  ⟨st.seq + 1, c.clientId, c.eventType, c.detail, c.clientTs, c.now, c.sourceAddr⟩

/-- `_maybe_vacuum`: the count of trimming inserts, and whether `VACUUM` is run. It rewrites the
file, not the tables. -/
def maybeVacuum (freelist : Option ℕ) (trimmed : ℕ) : Store × Bool :=
  if trimmed = 0 ∨ st.vacuumInterval = 0 then (st, false)
  else if st.writesSinceVacuum + 1 < st.vacuumInterval then
    ({ st with writesSinceVacuum := st.writesSinceVacuum + 1 }, false)
  else
    ({ st with writesSinceVacuum := 0 },
      match freelist with
      | none => false
      | some n => vacuumMinFreelistPages ≤ n)

/-- The rows after both trims of an insert. -/
def trim (clientId : Text) (rows : List Report) : List Report :=
  let rows := if st.maxReportsPerClient = 0 then rows
    else trimClient clientId st.maxReportsPerClient rows
  if st.maxTotalReports = 0 then rows else trimGlobal st.maxTotalReports rows

/-- `add_report` -/
def addReport (c : AddReport) : Except SqlError (Store × ℤ) := do
  bindAll [.text c.clientId, .text c.eventType, .text c.detail,
    match c.clientTs with
    | none => .none
    | some n => .num n,
    .num (.int c.now), .text c.sourceAddr]
  if st.seq = maxRowid then throw .full
  let inserted := st.reports ++ [st.newRow c]
  let rows := st.trim c.clientId inserted
  let trimmed := inserted.length - rows.length
  return (({ st with reports := rows, seq := st.seq + 1 }.maybeVacuum c.freelist trimmed).1, c.now)

/-- `list_reports` with its arguments given, newest row first. -/
def listReports (clientId : Text) (limit offset : ℤ) :
    Except SqlError (List Report) := do
  let limit := min (max limit 0) maxListLimit
  let offset := max offset 0
  bindAll [.text clientId, .num (.int limit), .num (.int offset)]
  return (((st.reports.filter (·.clientId = clientId)).reverse.drop offset.toNat).take limit.toNat)

/-- `ban` -/
def ban (clientId reason : Text) (now : ℤ) : Except SqlError Store := do
  bindAll [.text clientId, .text reason, .num (.int now)]
  return { st with bans := ⟨clientId, reason, now⟩ :: st.bans.filter (·.clientId ≠ clientId) }

/-- `unban`, and whether there was a ban. -/
def unban (clientId : Text) : Except SqlError (Store × Bool) := do
  bindAll [.text clientId]
  return ({ st with bans := st.bans.filter (·.clientId ≠ clientId) },
    st.bans.any (·.clientId = clientId))

/-- `ban_status` -/
def banStatus (clientId : Text) : Except SqlError (Option Ban) := do
  bindAll [.text clientId]
  return st.bans.find? (·.clientId = clientId)

/-- The store after a sequence of calls; a call that raises leaves it as it was. -/
def addReports (st : Store) : List AddReport → Store
  | [] => st
  | c :: cs =>
    match st.addReport c with
    | .ok (st', _) => st'.addReports cs
    | .error _ => st.addReports cs

/-- The rows that a sequence of calls inserts, oldest first. -/
def inserted (st : Store) : List AddReport → List Report
  | [] => []
  | c :: cs =>
    match st.addReport c with
    | .ok (st', _) => st.newRow c :: st'.inserted cs
    | .error _ => st.inserted cs

end Store

end Anticheat.Server
