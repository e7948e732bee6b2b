import Anticheat.Server.Routes

/-!
# What a client without an admin key can do and see

A request without an admin token ends in an answer that does not depend on the tables, or is a
report that is stored; so it leaves the bans as they are, and nothing that it is answered tells
about bans or reports.
-/

namespace Anticheat.Server

open Json (Text)

variable {T : Type*}

/-- The request carries one of the keys as its bearer token. -/
def Arrival.Carries (a : Arrival T) (keys : List Text) : Prop :=
  ∃ t ∈ keys, bearer a.authorization = some t

instance (a : Arrival T) (keys : List Text) : Decidable (a.Carries keys) :=
  inferInstanceAs (Decidable (∃ t ∈ keys, _))

/-! ### Authentication -/

/-- A token that is accepted is one of the keys. -/
lemma mem_of_anyM_compareDigest {got : Text} {keys : List Text}
    (h : keys.anyM (compareDigest got) = .ok true) : got ∈ keys := by
  induction keys with
  | nil => cases h
  | cons k keys ih =>
    rw [List.anyM_cons] at h
    cases hk : compareDigest got k with
    | error f =>
      rw [hk] at h
      cases h
    | ok b =>
      rw [hk] at h
      cases b with
      | false => exact List.mem_cons_of_mem _ (ih h)
      | true =>
        unfold compareDigest at hk
        split_ifs at hk
        simp only [Except.ok.injEq, decide_eq_true_eq] at hk
        exact hk ▸ List.mem_cons_self

lemma carries_of_authed {a : Arrival T} {keys : List Text}
    (h : authed a.authorization keys = .ok true) : a.Carries keys := by
  unfold authed at h
  split at h
  · cases h
  · next got hgot => exact ⟨got, mem_of_anyM_compareDigest h, hgot⟩

/-- Behind the decorator, the answer is the decorator's or the request carries the key and the
handler runs. -/
lemma routeGuarded_cases (a : Arrival T) (keys : List Text) :
    (∃ e, ∀ name body, routeGuarded a.authorization ⟨name, some keys, body⟩ = .error e) ∨
      a.Carries keys ∧ ∀ name body,
        routeGuarded a.authorization ⟨name, some keys, body⟩ = liftStop body := by
  have hguard : ∀ name body, routeGuarded a.authorization ⟨name, some keys, body⟩ =
      Routed.call ⟨name, some keys, body⟩ a.authorization := by
    intro name body
    simp [routeGuarded, publicHandlers]
  simp only [hguard, Routed.call]
  cases hauth : authed a.authorization keys with
  | error f => exact .inl ⟨_, fun _ _ => rfl⟩
  | ok b =>
    cases b with
    | false => exact .inl ⟨_, fun _ _ => rfl⟩
    | true => exact .inr ⟨carries_of_authed hauth, fun _ _ => rfl⟩

/-! ### One request -/

/-- Without an admin token, a request ends in the same way whatever the tables hold, or it runs
`_handle_report`. -/
lemma route_cases (cfg : Config) {a : Arrival T} (h : ¬ a.Carries cfg.keys.admin) :
    (∃ e, ∀ freelist st, route cfg a freelist st = .error e) ∨
      a.Carries cfg.keys.report ∧ ∀ freelist st, route cfg a freelist st =
        liftStop (handleReport cfg.depth (a.conn freelist) st a.req) := by
  have hadmin : ∃ e, ∀ name body,
      routeGuarded a.authorization ⟨name, some cfg.keys.admin, body⟩ = .error e :=
    (routeGuarded_cases a cfg.keys.admin).resolve_right fun hc => h hc.1
  obtain ⟨e, hadmin⟩ := hadmin
  unfold route
  cases hurl : Url.parse cfg.hostOk a.path with
  | none => exact .inl ⟨_, fun _ _ => rfl⟩
  | some pq =>
    obtain ⟨path, query⟩ := pq
    simp only
    by_cases hnil : QueryString.unquote path = []
    · exact .inl ⟨.reply (.error 404 "not found"), fun _ _ => by simp [hnil]⟩
    simp only [hnil, if_false]
    cases hmethod : a.method with
    | get =>
      simp only [getRoute]
      split_ifs
      · exact .inl ⟨e, fun _ _ => hadmin _ _⟩
      · exact .inl ⟨e, fun _ _ => hadmin _ _⟩
      · exact .inl ⟨_, fun _ _ => rfl⟩
    | post =>
      simp only [postRoute]
      split_ifs
      · rcases routeGuarded_cases a cfg.keys.report with ⟨e', he'⟩ | ⟨hc, hrun⟩
        · exact .inl ⟨e', fun _ _ => he' _ _⟩
        · exact .inr ⟨hc, fun _ _ => hrun _ _⟩
      · exact .inl ⟨e, fun _ _ => hadmin _ _⟩
      · exact .inl ⟨e, fun _ _ => hadmin _ _⟩
      · exact .inl ⟨_, fun _ _ => rfl⟩

/-- The checks of `_handle_report` do not look at the database. -/
lemma reportCall_cases (depth : ℕ) (a : Arrival T) :
    (∃ e, ∀ freelist, reportCall depth (a.conn freelist) a.req = .error e) ∨
      ∃ c : Store.AddReport, ∀ freelist, reportCall depth (a.conn freelist) a.req =
        .ok (.addReport { c with freelist := freelist }) := by
  unfold reportCall
  cases a.req.requireBodyClientId depth with
  | error e => exact .inl ⟨e, fun _ => rfl⟩
  | ok p =>
    obtain ⟨clientId, ms⟩ := p
    cases hevent : textMember ms "event_type" (· ≤ 64) with
    | error e => exact .inl ⟨e, fun _ => by simp [hevent, bind, Except.bind]⟩
    | ok eventType =>
      cases hdetail : textMember ms "detail" (· ≤ 2000) with
      | error e => exact .inl ⟨e, fun _ => by simp [hevent, hdetail, bind, Except.bind]⟩
      | ok detail =>
        cases hts : tsMember ms with
        | error e => exact .inl ⟨e, fun _ => by simp [hevent, hdetail, hts, bind, Except.bind]⟩
        | ok clientTs =>
          refine .inr ⟨⟨clientId, eventType, detail, clientTs, a.clientIp, a.now, none⟩,
            fun _ => ?_⟩
          simp [hevent, hdetail, hts, bind, Except.bind, pure, Except.pure, Arrival.conn]

/-- An insert leaves the bans alone. -/
lemma bans_addReport {st st' : Store} {c : Store.AddReport} {now : ℤ}
    (h : st.addReport c = .ok (st', now)) : st'.bans = st.bans := by
  simp only [Store.addReport, bind, Except.bind, throw, throwThe, MonadExceptOf.throw, pure,
    Except.pure] at h
  split at h
  · cases h
  split_ifs at h
  cases h
  unfold Store.maybeVacuum
  split_ifs <;> rfl

/-- A report is stored and acknowledged, or the store raises. -/
lemma answer_addReport (c : Store.AddReport) (st : Store) :
    (∃ st', (StoreCall.addReport c).answer st = .ok (st', .done 201) ∧ st'.bans = st.bans) ∨
      ∃ e, (StoreCall.addReport c).answer st = .error e := by
  cases hadd : st.addReport c with
  | error e => exact .inr ⟨e, by simp [StoreCall.answer, hadd, bind, Except.bind]⟩
  | ok r =>
    obtain ⟨st', now⟩ := r
    refine .inl ⟨st', ?_, bans_addReport hadd⟩
    simp [StoreCall.answer, hadd, bind, Except.bind, pure, Except.pure]

/-- How a request without an admin token can end: in the same way whatever the tables hold; or, if
it carries a report token, with a report stored, or with an exception of the store. -/
lemma route_outcome (cfg : Config) {a : Arrival T} (h : ¬ a.Carries cfg.keys.admin) :
    (∃ e, ∀ freelist st, route cfg a freelist st = .error e) ∨
      a.Carries cfg.keys.report ∧ ∀ freelist st,
        (∃ st', route cfg a freelist st = .ok (st', .done 201) ∧ st'.bans = st.bans) ∨
          ∃ e, route cfg a freelist st = .error (.fault (.handler (.sql e))) := by
  rcases route_cases cfg h with hconst | ⟨hc, hrun⟩
  · exact .inl hconst
  simp only [hrun, handleReport]
  rcases reportCall_cases cfg.depth a with ⟨e, he⟩ | ⟨c, hcall⟩
  · simp only [he, answerCall]
    exact .inl (by cases e <;> exact ⟨_, fun _ _ => rfl⟩)
  · refine .inr ⟨hc, fun freelist st => ?_⟩
    rw [hcall, answerCall]
    rcases answer_addReport { c with freelist := freelist } st with ⟨st', hst', hbans⟩ | ⟨e, he⟩
    · exact .inl ⟨st', by simp only [hst', liftStop], hbans⟩
    · exact .inr ⟨e, by simp only [he, liftStop]⟩

/-- A request without an admin token leaves the bans alone, and one without a report token the
reports too. -/
lemma store_route {cfg : Config} {a : Arrival T} (h : ¬ a.Carries cfg.keys.admin)
    (freelist : Option ℕ) (st : Store) :
    (dispatchRoute st (route cfg a freelist st)).1.bans = st.bans ∧
      (¬ a.Carries cfg.keys.report →
        (dispatchRoute st (route cfg a freelist st)).1.reports = st.reports) := by
  rcases route_outcome cfg h with ⟨e, he⟩ | ⟨hc, hrun⟩
  · rw [he]
    cases e <;> exact ⟨rfl, fun _ => rfl⟩
  · refine ⟨?_, fun hno => absurd hc hno⟩
    rcases hrun freelist st with ⟨st', hst', hbans⟩ | ⟨e, he⟩
    · rw [hst']
      exact hbans
    · rw [he]
      rfl

/-- The operations of the store succeed in the request. -/
def succeeds (cfg : Config) (a : Arrival T) (freelist : Option ℕ) (st : Store) : Bool :=
  match route cfg a freelist st with
  | .error (.fault (.handler (.sql _))) => false
  | _ => true

/-- Where they succeed, the answer to a request without an admin token does not depend on the
tables. -/
lemma reply_route {cfg : Config} {a : Arrival T} (h : ¬ a.Carries cfg.keys.admin)
    {f₁ f₂ : Option ℕ} {st₁ st₂ : Store} (h₁ : succeeds cfg a f₁ st₁ = true)
    (h₂ : succeeds cfg a f₂ st₂ = true) :
    (dispatchRoute st₁ (route cfg a f₁ st₁)).2 = (dispatchRoute st₂ (route cfg a f₂ st₂)).2 := by
  rcases route_outcome cfg h with ⟨e, he⟩ | ⟨-, hrun⟩
  · rw [he, he]
    cases e <;> rfl
  · have hdone : ∀ {f st}, succeeds cfg a f st = true →
        ∃ st', route cfg a f st = .ok (st', .done 201) := by
      intro f st hs
      rcases hrun f st with ⟨st', hst', -⟩ | ⟨e, he⟩
      · exact ⟨st', hst'⟩
      · simp [succeeds, he] at hs
    obtain ⟨st₁', hst₁⟩ := hdone h₁
    obtain ⟨st₂', hst₂⟩ := hdone h₂
    rw [hst₁, hst₂]
    rfl

/-! ### Sequences of requests -/

variable [LinearOrder T] [Sub T]

/-- The operations of the store succeed in all requests that the limiter lets through. -/
def succeedsAll (cfg : Config) (s : ServerState T) : List (Arrival T × Option ℕ) → Bool
  | [] => true
  | (a, freelist) :: as =>
    (!(s.limiter.allow ⟨a.clock, a.clientIp⟩).2 || succeeds cfg a freelist s.store) &&
      succeedsAll cfg (serve cfg a freelist s).1 as

lemma store_serve {cfg : Config} {a : Arrival T} (h : ¬ a.Carries cfg.keys.admin)
    (freelist : Option ℕ) (s : ServerState T) :
    (serve cfg a freelist s).1.store.bans = s.store.bans ∧
      (¬ a.Carries cfg.keys.report →
        (serve cfg a freelist s).1.store.reports = s.store.reports) := by
  unfold serve
  cases hallow : (s.limiter.allow ⟨a.clock, a.clientIp⟩).2 with
  | true => simpa [hallow] using store_route h freelist s.store
  | false => simp [hallow]

/-- The limiter does not look at the store. -/
lemma limiter_serve (cfg : Config) (a : Arrival T) (freelist : Option ℕ) (s : ServerState T) :
    (serve cfg a freelist s).1.limiter = (s.limiter.allow ⟨a.clock, a.clientIp⟩).1 := by
  unfold serve
  cases hallow : (s.limiter.allow ⟨a.clock, a.clientIp⟩).2 <;> simp [hallow]

lemma response_serve {cfg : Config} {a : Arrival T} (h : ¬ a.Carries cfg.keys.admin)
    {f₁ f₂ : Option ℕ} {s₁ s₂ : ServerState T} (hlim : s₁.limiter = s₂.limiter)
    (h₁ : (s₁.limiter.allow ⟨a.clock, a.clientIp⟩).2 = true → succeeds cfg a f₁ s₁.store = true)
    (h₂ : (s₂.limiter.allow ⟨a.clock, a.clientIp⟩).2 = true → succeeds cfg a f₂ s₂.store = true) :
    (serve cfg a f₁ s₁).2 = (serve cfg a f₂ s₂).2 := by
  unfold serve
  rw [← hlim] at h₂ ⊢
  cases hallow : (s₁.limiter.allow ⟨a.clock, a.clientIp⟩).2 with
  | true => simp [hallow, reply_route h (h₁ hallow) (h₂ hallow)]
  | false => simp [hallow]

/-- For all keys that `main` accepts and every sequence of requests without an admin token: the
bans stay as they are; for any two contents of the tables the answers are the same, if the limiter
is and the operations of the store succeed; and without a report token the reports stay as they
are. -/
theorem serveAll_isolated (cfg : Config) (as : List (Arrival T × Option ℕ))
    (hadmin : ∀ a ∈ as.map Prod.fst, ¬ a.Carries cfg.keys.admin) :
    (∀ s, (serveAll cfg s as).1.store.bans = s.store.bans) ∧
    (∀ s₁ s₂ bs, bs.map Prod.fst = as.map Prod.fst → s₁.limiter = s₂.limiter →
      succeedsAll cfg s₁ as = true → succeedsAll cfg s₂ bs = true →
        (serveAll cfg s₁ as).2 = (serveAll cfg s₂ bs).2) ∧
    ((∀ a ∈ as.map Prod.fst, ¬ a.Carries cfg.keys.report) →
      ∀ s, (serveAll cfg s as).1.store.reports = s.store.reports) := by
  induction as with
  | nil =>
    refine ⟨fun _ => rfl, fun s₁ s₂ bs hbs _ _ _ => ?_, fun _ _ => rfl⟩
    rw [List.map_nil, List.map_eq_nil_iff] at hbs
    rw [hbs]
    rfl
  | cons p as ih =>
    obtain ⟨a, f⟩ := p
    rw [List.map_cons, List.forall_mem_cons] at hadmin
    obtain ⟨hbans, hresp, hreports⟩ := ih hadmin.2
    refine ⟨fun s => ?_, fun s₁ s₂ bs hbs hlim h₁ h₂ => ?_, fun hreport s => ?_⟩
    · exact (hbans _).trans (store_serve hadmin.1 f s).1
    · obtain ⟨⟨b, g⟩, bs, rfl, hb, hbs'⟩ := List.map_eq_cons_iff.mp hbs
      obtain rfl : b = a := hb
      simp only [succeedsAll, Bool.and_eq_true, Bool.or_eq_true, Bool.not_eq_true',
        ← Bool.not_eq_true, ← imp_iff_not_or] at h₁ h₂
      have hone := response_serve hadmin.1 hlim h₁.1 h₂.1
      have hlim' : (serve cfg b f s₁).1.limiter = (serve cfg b g s₂).1.limiter := by
        rw [limiter_serve, limiter_serve, hlim]
      exact congrArg₂ List.cons hone (hresp _ _ bs hbs' hlim' h₁.2 h₂.2)
    · rw [List.map_cons, List.forall_mem_cons] at hreport
      exact (hreports hreport.2 _).trans ((store_serve hadmin.1 f s).2 hreport.1)

/-! A daemon with a report key sends a report and then tries to lift the ban of a client. -/

/-- Keys that `main` accepts. -/
def sampleKeys : Keys :=
  ⟨[text "report-key-123456"], [text "admin-key-1234567"], by decide +kernel⟩

example : (mainKeys (some (text "report-key-123456")) (some (text "admin-key-1234567")) none
    none).toOption.any (fun k => k.report = sampleKeys.report && k.admin = sampleKeys.admin) :=
  by decide +kernel

def sampleConfig : Config := ⟨sampleKeys, 5, .ascii, fun _ => false⟩

/-- A `POST` with the report key. -/
def samplePost (path body : String) : Arrival ℤ where
  method := .post
  path := text path
  authorization := some (text "Bearer report-key-123456")
  req := ⟨none, [text (toString body.toList.length)], body.toList.map fun c => UInt8.ofNat c.toNat⟩
  clientIp := text "10.0.0.1"
  clock := 0
  now := 0
  clientIp_ok := by decide +kernel
  now_ok := by decide

def sampleRequests : List (Arrival ℤ × Option ℕ) :=
  [(samplePost "/report" "\x7b\"client_id\": \"a\", \"event_type\": \"x\", \"detail\": \"\"\x7d",
      none),
    (samplePost "/unban" "\x7b\"client_id\": \"a\"\x7d", none)]

/-- A server with a ban of the client, or without one. -/
def sampleServer (bans : List Ban) : ServerState ℤ :=
  ⟨.new 60 60 10 (by decide) 0, { Store.new 10 10 10 with bans := bans }⟩

theorem serveAll_isolated_sample :
    (serveAll sampleConfig (sampleServer [⟨text "a", text "x", 0⟩]) sampleRequests).1.store.bans =
        [⟨text "a", text "x", 0⟩] ∧
      (serveAll sampleConfig (sampleServer [⟨text "a", text "x", 0⟩]) sampleRequests).2 =
        (serveAll sampleConfig (sampleServer []) sampleRequests).2 := by
  have hiso := serveAll_isolated sampleConfig sampleRequests (by decide +kernel)
  exact ⟨hiso.1 _, hiso.2.1 _ _ _ rfl rfl (by decide +kernel) (by decide +kernel)⟩

end Anticheat.Server
