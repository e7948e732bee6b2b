import Anticheat.Server.Handlers

/-!
# What the checks let through and the database refuses

The handlers check types and lengths, the database has limits of its own: integers have to fit 64
bits and text has to be encodable. A request that passes the checks is answered properly exactly
when the texts of its body have no lone surrogates, the integer `ts` fits 64 bits and the offset of
a listing does.
-/

namespace Anticheat.Server

open Json (Text Number Value)
open QueryString

/-! ### Binding -/

lemma bindAll_eq_ok {ps : List SqlParam} : bindAll ps = .ok () ↔ ∀ p ∈ ps, p.bind = .ok () := by
  induction ps with
  | nil => simp [bindAll, pure, Except.pure]
  | cons p ps ih =>
    have hcons : bindAll (p :: ps) = p.bind >>= fun _ => bindAll ps := rfl
    rw [hcons, List.forall_mem_cons, ← ih]
    cases p.bind with
    | ok u => simp [bind, Except.bind]
    | error e => simp [bind, Except.bind]

@[simp]
lemma bind_none : SqlParam.none.bind = .ok () := rfl

@[simp]
lemma bind_text {t : Text} : (SqlParam.text t).bind = .ok () ↔ t.any isSurrogate = false := by
  simp [SqlParam.bind]

@[simp]
lemma bind_int {z : ℤ} : (SqlParam.num (.int z)).bind = .ok () ↔ -2 ^ 63 ≤ z ∧ z < 2 ^ 63 := by
  simp only [SqlParam.bind]
  split_ifs with h
  · exact iff_of_true rfl h
  · exact iff_of_false nofun h

namespace StoreCall

/-- The values that a call binds to its statement. -/
def params : StoreCall → List SqlParam
  | addReport c => [.text c.clientId, .text c.eventType, .text c.detail,
      match c.clientTs with
      | none => .none
      | some n => .num n,
      .num (.int c.now), .text c.sourceAddr]
  | ban clientId reason now => [.text clientId, .text reason, .num (.int now)]
  | listReports clientId limit offset => [.text clientId,
      .num (.int (min (max limit 0) Store.maxListLimit)), .num (.int (max offset 0))]

variable {st : Store} {c : StoreCall}

/-- A report whose values can be stored is stored. -/
lemma addReport_ok {c : Store.AddReport} (hid : st.seq < Store.maxRowid)
    (h : ∀ p ∈ (addReport c).params, p.bind = .ok ()) :
    ∃ st', st.addReport c = .ok (st', c.now) := by
  have hall := bindAll_eq_ok.mpr h
  obtain ⟨clientId, eventType, detail, clientTs, addr, now, freelist⟩ := c
  cases clientTs <;>
    simp only [params] at hall <;>
    simp only [Store.addReport, hall, Nat.ne_of_lt hid, bind, Except.bind, pure, Except.pure,
      if_false] <;>
    exact ⟨_, rfl⟩

/-- A call whose values can be stored is answered. -/
lemma answer_ok (hid : st.seq < Store.maxRowid) (h : ∀ p ∈ c.params, p.bind = .ok ()) :
    ∃ st' r, c.answer st = .ok (st', r) ∧ (r.status = 200 ∨ r.status = 201) := by
  have hall := bindAll_eq_ok.mpr h
  cases c with
  | addReport c =>
    obtain ⟨st', hadd⟩ := addReport_ok hid h
    exact ⟨st', .done 201, by simp [answer, hadd, bind, Except.bind, pure, Except.pure], .inr rfl⟩
  | ban clientId reason now =>
    simp only [params] at hall
    simp only [answer, Store.ban, hall, bind, Except.bind, pure, Except.pure]
    exact ⟨_, .done 200, rfl, .inl rfl⟩
  | listReports clientId limit offset =>
    simp only [params] at hall
    simp only [answer, Store.listReports, hall, bind, Except.bind, pure, Except.pure]
    exact ⟨st, .reports _, rfl, .inl rfl⟩

/-- A call with a value that cannot be stored raises. -/
lemma answer_error (h : ¬ ∀ p ∈ c.params, p.bind = .ok ()) : ∃ e, c.answer st = .error e := by
  rw [← bindAll_eq_ok] at h
  obtain ⟨e, he⟩ : ∃ e, bindAll c.params = .error e := by
    cases hb : bindAll c.params with
    | ok u => exact absurd hb h
    | error e => exact ⟨e, rfl⟩
  cases c with
  | addReport c =>
    obtain ⟨clientId, eventType, detail, clientTs, addr, now, freelist⟩ := c
    cases clientTs <;>
      simp only [params] at he <;>
      exact ⟨e, by simp [answer, Store.addReport, he, bind, Except.bind]⟩
  | ban clientId reason now =>
    simp only [params] at he
    exact ⟨e, by simp [answer, Store.ban, he, bind, Except.bind]⟩
  | listReports clientId limit offset =>
    simp only [params] at he
    exact ⟨e, by simp [answer, Store.listReports, he, bind, Except.bind]⟩

end StoreCall

/-- The answer has a 2xx or a 4xx status. -/
def Answered (r : Reply) : Prop :=
  200 ≤ r.status ∧ r.status < 300 ∨ 400 ≤ r.status ∧ r.status < 500

/-- A request that the checks let through is answered exactly when its values can be stored. -/
lemma answered_iff {st : Store} (hid : st.seq < Store.maxRowid) (c : StoreCall) :
    Answered (dispatch st (answerCall st (.ok c))).2 ↔ ∀ p ∈ c.params, p.bind = .ok () := by
  by_cases h : ∀ p ∈ c.params, p.bind = .ok ()
  · obtain ⟨st', r, hans, hr⟩ := StoreCall.answer_ok hid h
    have hd : dispatch st (answerCall st (.ok c)) = (st', r) := by simp [answerCall, hans, dispatch]
    rw [hd]
    refine iff_of_true ?_ h
    simp only [Answered]
    omega
  · obtain ⟨e, hans⟩ : ∃ e, c.answer st = .error e := StoreCall.answer_error h
    have hd : dispatch st (answerCall st (.ok c)) = (st, .error 500 "internal error") := by
      simp [answerCall, hans, dispatch]
    rw [hd]
    exact iff_of_false (by simp [Answered, Reply.status]) h

/-! ### What passes the checks -/

lemma not_isSurrogate_of_clientIdRe {t : Text} (h : clientIdRe t = true) :
    t.any isSurrogate = false := by
  simp only [clientIdRe, Bool.and_eq_true, List.all_eq_true] at h
  rw [List.any_eq_false]
  intro c hc
  have := h.1.1 c hc
  simp only [Bool.or_eq_true, Bool.and_eq_true, decide_eq_true_eq] at this
  simp only [isSurrogate, Bool.and_eq_true, decide_eq_true_eq]
  omega

/-- The members of the body of a request, when it is a JSON object. -/
def Request.members (depth : ℕ) (req : Request) : Option (List (Text × Value)) :=
  match req.readJsonBody depth with
  | .ok (some (.obj ms)) => some ms
  | _ => none

section

variable {depth : ℕ} {U : DigitTable} {conn : Conn} {req : Request} {ms : List (Text × Value)}

lemma members_of_requireBodyClientId {clientId : Text}
    (h : req.requireBodyClientId depth = .ok (clientId, ms)) :
    req.members depth = some ms ∧ clientIdRe clientId = true := by
  unfold Request.requireBodyClientId at h
  cases hframe : req.checkBodyFraming with
  | some p => simp [hframe] at h
  | none =>
    cases hread : req.readJsonBody depth with
    | error e => simp [hframe, hread, bind, Except.bind] at h
    | ok v =>
      simp only [hframe, hread, bind, Except.bind] at h
      split at h
      · next ms' =>
        split_ifs at h
        split at h
        · split_ifs at h with hid
          cases h
          exact ⟨by simp [Request.members, hread], hid⟩
        · cases h
      · cases h

lemma get?_of_textMember {name : String} {ok : ℕ → Bool} {t : Text}
    (h : textMember ms name ok = .ok t) : Json.get? ms (text name) = some (.str t) := by
  unfold textMember at h
  split at h
  · next hget =>
    split_ifs at h
    cases h
    exact hget
  · cases h

lemma get?_of_tsMember {n? : Option Number} (h : tsMember ms = .ok n?) :
    Json.get? ms (text "ts") = n?.map Value.num := by
  unfold tsMember at h
  split at h
  · next hget =>
    cases h
    exact hget
  · next hget =>
    split_ifs at h
    cases h
    exact hget
  · cases h

/-- A report that passes the checks. -/
lemma of_reportCall {c : StoreCall} (h : reportCall depth conn req = .ok c) :
    ∃ ms clientId eventType detail clientTs, req.members depth = some ms ∧
      clientIdRe clientId = true ∧ Json.get? ms (text "event_type") = some (.str eventType) ∧
      Json.get? ms (text "detail") = some (.str detail) ∧
      Json.get? ms (text "ts") = clientTs.map Value.num ∧
      c = .addReport ⟨clientId, eventType, detail, clientTs, conn.clientIp, conn.now,
        conn.freelist⟩ := by
  simp only [reportCall, bind, Except.bind] at h
  split at h
  · cases h
  next body hbody =>
  obtain ⟨hms, hid⟩ := members_of_requireBodyClientId hbody
  split at h
  · cases h
  next eventType hev =>
  split at h
  · cases h
  next detail hdet =>
  split at h
  · cases h
  next clientTs hts =>
  cases h
  exact ⟨body.2, body.1, eventType, detail, clientTs, hms, hid, get?_of_textMember hev,
    get?_of_textMember hdet, get?_of_tsMember hts, rfl⟩

/-- A ban that passes the checks. -/
lemma of_banCall {c : StoreCall} (h : banCall depth conn req = .ok c) :
    ∃ ms clientId reason, req.members depth = some ms ∧ clientIdRe clientId = true ∧
      Json.get? ms (text "reason") = some (.str reason) ∧ c = .ban clientId reason conn.now := by
  simp only [banCall, bind, Except.bind] at h
  split at h
  · cases h
  next body hbody =>
  obtain ⟨hms, hid⟩ := members_of_requireBodyClientId hbody
  split at h
  · cases h
  next reason hreason =>
  cases h
  exact ⟨body.2, body.1, reason, hms, hid, get?_of_textMember hreason, rfl⟩

lemma listingParam_cases {query : Text} {name : String} {dflt n : ℤ}
    (h : listingParam U query name dflt = some n) :
    (values query (text name) = [] ∧ n = dflt) ∨
      ∃ raw m, values query (text name) = [raw] ∧ toInt U raw = some m ∧ n = Int.ofNat m := by
  unfold listingParam at h
  split at h
  · next hnil =>
    cases h
    exact .inl ⟨hnil, rfl⟩
  · next raw hraw =>
    split_ifs at h
    obtain ⟨m, hm, rfl⟩ := Option.map_eq_some_iff.mp h
    exact .inr ⟨raw, m, hraw, hm, rfl⟩
  · cases h

/-- A listing that passes the checks. -/
lemma of_listCall {clientId query : Text} {c : StoreCall}
    (h : listCall U clientId query = .ok c) :
    ∃ limit offset, clientIdRe clientId = true ∧ listingParam U query "offset" 0 = some offset ∧
      c = .listReports clientId limit offset := by
  unfold listCall at h
  split_ifs at h with hid
  split at h
  · cases h
  next limit offset hparams =>
  cases h
  simp only [parseListingParams, Option.bind_eq_bind, Option.bind_eq_some_iff] at hparams
  obtain ⟨limit', -, hrest⟩ := hparams
  split_ifs at hrest
  · cases hrest
  simp only [Option.bind_eq_some_iff] at hrest
  obtain ⟨offset', hoffset, heq⟩ := hrest
  cases heq
  exact ⟨_, offset, hid, hoffset, rfl⟩

end

/-! ### Requests -/

/-- The requests of the three handlers: the body of a report or of a ban, and the client id and the
query of a listing. -/
inductive Api
  | report (req : Request)
  | ban (req : Request)
  | reports (clientId query : Text)

namespace Api

variable (depth : ℕ) (U : DigitTable) (conn : Conn) (st : Store)

/-- The call that the checks let through. -/
def call : Api → Except Stop StoreCall
  | report req => reportCall depth conn req
  | ban req => banCall depth conn req
  | reports clientId query => listCall U clientId query

def handle : Api → Except Stop (Store × Reply)
  | report req => handleReport depth conn st req
  | ban req => handleBan depth conn st req
  | reports clientId query => handleReports U st clientId query

/-- A text member of the body has no lone surrogate. -/
def TextOk (ms : List (Text × Value)) (name : String) : Prop :=
  ∀ t ∈ (Json.get? ms (text name)).bind Value.text?, t.any isSurrogate = false

/-- The integer `ts` of the body fits 64 bits. -/
def TsOk (ms : List (Text × Value)) : Prop :=
  ∀ z ∈ (Json.get? ms (text "ts")).bind Value.int?, -2 ^ 63 ≤ z ∧ z < 2 ^ 63

/-- The offset of a query. -/
def offset? (query : Text) : Option ℕ :=
  match values query (text "offset") with
  | [raw] => toInt U raw
  | _ => none

/-- The texts of the body have no lone surrogates, and its integer and that of the query fit 64
bits. -/
def Storable : Api → Prop
  | report req => ∀ ms ∈ req.members depth,
      TextOk ms "event_type" ∧ TextOk ms "detail" ∧ TsOk ms
  | ban req => ∀ ms ∈ req.members depth, TextOk ms "reason"
  | reports _ query => ∀ n ∈ offset? U query, n < 2 ^ 63

instance (ms : List (Text × Value)) (name : String) : Decidable (TextOk ms name) :=
  inferInstanceAs (Decidable (∀ _ ∈ Option.bind _ _, _))

instance (ms : List (Text × Value)) : Decidable (TsOk ms) :=
  inferInstanceAs (Decidable (∀ _ ∈ Option.bind _ _, _))

instance (a : Api) : Decidable (a.Storable depth U) :=
  match a with
  | report req => inferInstanceAs (Decidable (∀ _ ∈ req.members depth, _))
  | ban req => inferInstanceAs (Decidable (∀ _ ∈ req.members depth, _))
  | reports _ query => inferInstanceAs (Decidable (∀ _ ∈ offset? U query, _))

variable {depth U conn st} {ms : List (Text × Value)}

lemma handle_eq (a : Api) : a.handle depth U conn st = answerCall st (a.call depth U conn) := by
  cases a <;> rfl

lemma textOk_iff {name : String} {t : Text} (h : Json.get? ms (text name) = some (.str t)) :
    TextOk ms name ↔ (SqlParam.text t).bind = .ok () := by
  rw [bind_text, TextOk, h]
  simp [Value.text?]

lemma bind_report {req : Request} {c : StoreCall} (h : reportCall depth conn req = .ok c) :
    (∀ p ∈ c.params, p.bind = .ok ()) ↔ (report req).Storable depth U := by
  obtain ⟨ms, clientId, eventType, detail, clientTs, hms, hid, hev, hdet, hts, rfl⟩ :=
    of_reportCall h
  have hstorable : (report req).Storable depth U ↔
      TextOk ms "event_type" ∧ TextOk ms "detail" ∧ TsOk ms := by
    simp [Storable, hms]
  rw [hstorable, textOk_iff hev, textOk_iff hdet, TsOk, hts]
  simp only [StoreCall.params, List.forall_mem_cons, bind_text, bind_int,
    not_isSurrogate_of_clientIdRe hid, conn.clientIp_ok, conn.now_ok]
  cases clientTs with
  | none => simp
  | some n =>
    cases n with
    | int z => simp [Value.int?]
    | dec neg mant exp => simp [SqlParam.bind, Value.int?]
    | nan => simp [SqlParam.bind, Value.int?]
    | inf neg => simp [SqlParam.bind, Value.int?]

lemma bind_ban {req : Request} {c : StoreCall} (h : banCall depth conn req = .ok c) :
    (∀ p ∈ c.params, p.bind = .ok ()) ↔ (ban req).Storable depth U := by
  obtain ⟨ms, clientId, reason, hms, hid, hreason, rfl⟩ := of_banCall h
  have hstorable : (ban req).Storable depth U ↔ TextOk ms "reason" := by
    simp [Storable, hms]
  rw [hstorable, textOk_iff hreason]
  simp only [StoreCall.params, List.forall_mem_cons, bind_text, bind_int,
    not_isSurrogate_of_clientIdRe hid, conn.now_ok]
  simp

lemma bind_reports {clientId query : Text} {c : StoreCall} (h : listCall U clientId query = .ok c) :
    (∀ p ∈ c.params, p.bind = .ok ()) ↔ (reports clientId query).Storable depth U := by
  obtain ⟨limit, offset, hid, hoffset, rfl⟩ := of_listCall h
  -- the limit is clamped; the offset is any number
  have hparams : (∀ p ∈ (StoreCall.listReports clientId limit offset).params, p.bind = .ok ()) ↔
      max offset 0 < 2 ^ 63 := by
    simp only [StoreCall.params, List.forall_mem_cons, bind_text, bind_int,
      not_isSurrogate_of_clientIdRe hid, Store.maxListLimit]
    simp
  rw [hparams]
  rcases listingParam_cases hoffset with ⟨hnil, rfl⟩ | ⟨raw, m, hraw, hm, rfl⟩
  · simp [Storable, offset?, hnil]
  · have hstorable : (reports clientId query).Storable depth U ↔ m < 2 ^ 63 := by
      simp [Storable, offset?, hraw, hm]
    rw [hstorable, Int.ofNat_eq_natCast]
    omega

end Api

/-- For every request that the checks let through to the store, all values that the call binds can
be stored, and it is answered with a 2xx or a 4xx status, exactly when the texts of its body have no
lone surrogates and the integer in its body, or the offset in its query, fits 64 bits. -/
theorem answered_iff_storable (depth : ℕ) (U : DigitTable) (conn : Conn) (st : Store)
    (hid : st.seq < Store.maxRowid) (a : Api) (c : StoreCall)
    (h : a.call depth U conn = .ok c) :
    ((∀ p ∈ c.params, p.bind = .ok ()) ∧
      Answered (dispatch st (a.handle depth U conn st)).2) ↔ a.Storable depth U := by
  have hbind : (∀ p ∈ c.params, p.bind = .ok ()) ↔ a.Storable depth U := by
    cases a with
    | report req => exact Api.bind_report h
    | ban req => exact Api.bind_ban h
    | reports clientId query => exact Api.bind_reports h
  rw [Api.handle_eq, h, answered_iff hid, and_self, hbind]

/-! ### Requests that the checks let through -/

/-- The connection of a local client. -/
def localConn : Conn where
  clientIp := text "127.0.0.1"
  now := 1700000000
  freelist := none
  clientIp_ok := by decide
  now_ok := by decide

/-- A request with the body and its length. -/
def postBody (length body : String) : Request :=
  ⟨none, [text length], body.toList.map fun c => c.val.toUInt8⟩

/-- A report with all its values in range. -/
def plainReport : Request :=
  postBody "47" "\x7b\"client_id\":\"a\",\"event_type\":\"b\",\"detail\":\"c\"\x7d"

/-- The same with a lone surrogate in the detail. -/
def surrogateReport : Request :=
  postBody "52" "\x7b\"client_id\":\"a\",\"event_type\":\"b\",\"detail\":\"\\ud800\"\x7d"

/-- The same with a time of 2 ^ 63. -/
def lateReport : Request :=
  postBody "72" ("\x7b\"client_id\":\"a\",\"event_type\":\"b\",\"detail\":\"c\"" ++
    ",\"ts\":9223372036854775808\x7d")

theorem answered_iff_storable_plain :
    Answered (dispatch (Store.new 1 1 1)
      ((Api.report plainReport).handle 5 .ascii localConn (Store.new 1 1 1))).2 :=
  ((answered_iff_storable 5 .ascii localConn (Store.new 1 1 1) (by decide) (.report plainReport)
    (.addReport ⟨text "a", text "b", text "c", none, text "127.0.0.1", 1700000000, none⟩)
    (by decide +kernel)).mpr (by decide +kernel)).2

/-- The request passes the checks, and the answer is status 500. -/
def Api.Fails (a : Api) : Prop :=
  (a.call 5 .ascii localConn).isOk = true ∧
    (dispatch (Store.new 1 1 1) (a.handle 5 .ascii localConn (Store.new 1 1 1))).2 =
      .error 500 "internal error"

instance (a : Api) : Decidable a.Fails := inferInstanceAs (Decidable (_ ∧ _))

/-- So do a lone surrogate in a text, and a time and an offset beyond 64 bits. -/
theorem storable_unchecked : (Api.report surrogateReport).Fails ∧ (Api.report lateReport).Fails ∧
    (Api.reports (text "a") (text "offset=9223372036854775808")).Fails := by
  decide +kernel

end Anticheat.Server
