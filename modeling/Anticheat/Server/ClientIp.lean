import Anticheat.Server.Handlers
import Anticheat.Server.RateLimiter

/-!
# Where a request comes from

`_peer_is_trusted_proxy` and `_client_ip`. A client may send any number of `X-Forwarded-For` lines
with anything in them. A proxy that is trusted appends the address it sees to what the client sent,
or adds a line of its own after it. The parser of addresses and the networks are those of the
`ipaddress` module and stand for themselves here; headers are decoded as Latin-1.
-/

namespace Anticheat.Server

open Json (Text)

/-! ### The code -/

/-- The characters that `str.strip` takes off. -/
def isSpace (c : ℕ) : Bool :=
  (9 ≤ c && c ≤ 13) || (28 ≤ c && c ≤ 32) || c = 0x85 || c = 0xA0 || c = 0x1680 ||
    (0x2000 ≤ c && c ≤ 0x200A) || c = 0x2028 || c = 0x2029 || c = 0x202F || c = 0x205F ||
    c = 0x3000

/-- `strip()` -/
def strip (t : Text) : Text := ((t.dropWhile isSpace).reverse.dropWhile isSpace).reverse

/-- `",".join(lines)` -/
def commaJoin (lines : List Text) : Text := [44].intercalate lines

/-- `rsplit(",", 1)[-1]` -/
def afterLastComma (t : Text) : Text := (t.reverse.takeWhile (· ≠ 44)).reverse

/-- `--trust-proxy` and `--trusted-proxy-cidr`, with the parser of addresses. -/
structure ProxyConfig where
  Address : Type
  ipAddress : Text → Option Address
  trustProxy : Bool
  trustedProxyNets : List (Address → Bool)

namespace ProxyConfig

variable (cfg : ProxyConfig)

/-- `_peer_is_trusted_proxy` -/
def peerIsTrustedProxy (peer : Text) : Bool :=
  match cfg.ipAddress peer with
  | none => false
  | some a => cfg.trustedProxyNets.any fun net => net a

/-- `_client_ip`. `xffAll` are the values of the `X-Forwarded-For` lines. -/
def clientIp (peer : Text) (xffAll : List Text) : Text :=
  if !cfg.trustProxy || !cfg.peerIsTrustedProxy peer then peer
  else if xffAll = [] then peer
  else
    let candidate := strip (afterLastComma (commaJoin xffAll))
    if (cfg.ipAddress candidate).isNone then peer else candidate

end ProxyConfig

/-! ### Requests -/

/-- How a proxy passes on the address it sees. -/
inductive Forwarding where
  /-- appended to the lines of the client, which become one -/
  | append
  /-- as a line after those of the client -/
  | line
  deriving DecidableEq, Repr

/-- A request: the address of the peer, the lines that the client has sent, and, if it comes from a
proxy, how this passes on the address it sees. -/
structure Hit (T : Type*) where
  now : T
  peer : Text
  sent : List Text
  via : Option (Forwarding × Text)
  deriving DecidableEq, Repr

namespace Hit

variable {T : Type*} (r : Hit T)

/-- The lines that reach the server. -/
def lines : List Text :=
  match r.via with
  | none => r.sent
  | some (.append, ip) => if r.sent = [] then [ip] else [commaJoin r.sent ++ [44, 32] ++ ip]
  | some (.line, ip) => r.sent ++ [ip]

/-- Where the request comes from. -/
def origin : Text :=
  match r.via with
  | none => r.peer
  | some (_, ip) => ip

/-- Only the proxies are in the networks that are trusted, and they pass on addresses. -/
def Genuine (cfg : ProxyConfig) : Prop :=
  match r.via with
  | none => cfg.peerIsTrustedProxy r.peer = false
  | some (_, ip) => cfg.peerIsTrustedProxy r.peer = true ∧ (cfg.ipAddress ip).isSome = true ∧
      (∀ c ∈ ip, c ≠ 44 ∧ isSpace c = false)

instance decidableGenuine (cfg : ProxyConfig) : Decidable (r.Genuine cfg) := by
  unfold Genuine
  split <;> infer_instance

end Hit

/-! ### The last entry -/

lemma afterLastComma_append {t u : Text} (hu : ∀ c ∈ u, c ≠ 44) :
    afterLastComma (t ++ 44 :: u) = u := by
  have hrev : ∀ c ∈ u.reverse, decide (c ≠ 44) = true := fun c hc => by
    simpa using hu c (List.mem_reverse.mp hc)
  rw [afterLastComma, List.reverse_append, List.reverse_cons, List.append_assoc,
    List.takeWhile_append_of_pos hrev]
  simp

lemma afterLastComma_of_forall {u : Text} (hu : ∀ c ∈ u, c ≠ 44) : afterLastComma u = u := by
  have hrev : ∀ c ∈ u.reverse, decide (c ≠ 44) = true := fun c hc => by
    simpa using hu c (List.mem_reverse.mp hc)
  rw [afterLastComma, List.takeWhile_eq_self_iff.mpr hrev, List.reverse_reverse]

lemma commaJoin_concat {lines : List Text} (hne : lines ≠ []) (u : Text) :
    commaJoin (lines ++ [u]) = commaJoin lines ++ 44 :: u := by
  induction lines with
  | nil => exact absurd rfl hne
  | cons t lines ih =>
    cases lines with
    | nil => simp [commaJoin, List.intercalate]
    | cons t' lines =>
      have hrest := ih (by simp)
      simp only [commaJoin, List.intercalate, List.cons_append, List.intersperse_cons_cons,
        List.flatten_cons, List.append_assoc] at hrest ⊢
      rw [hrest]

lemma strip_of_forall {u : Text} (hu : ∀ c ∈ u, isSpace c = false) : strip u = u := by
  have hdrop : ∀ {v : Text}, (∀ c ∈ v, isSpace c = false) → v.dropWhile isSpace = v := by
    intro v hv
    cases v with
    | nil => rfl
    | cons c v => rw [List.dropWhile_cons_of_neg (by simp [hv c])]
  rw [strip, hdrop hu, hdrop fun c hc => hu c (List.mem_reverse.mp hc), List.reverse_reverse]

lemma strip_space_cons (u : Text) : strip (32 :: u) = strip u := by
  rw [strip, List.dropWhile_cons_of_pos (by decide), strip]

/-- Whatever the client sent, the entry that is looked at is what the proxy passed on. -/
lemma candidate_lines {T : Type*} {r : Hit T} {f : Forwarding} {ip : Text}
    (hvia : r.via = some (f, ip)) (hip : ∀ c ∈ ip, c ≠ 44 ∧ isSpace c = false) :
    r.lines ≠ [] ∧ strip (afterLastComma (commaJoin r.lines)) = ip := by
  have hcomma : ∀ c ∈ ip, c ≠ 44 := fun c hc => (hip c hc).1
  have hspace : strip ip = ip := strip_of_forall fun c hc => (hip c hc).2
  have hsingle : commaJoin [ip] = ip := by simp [commaJoin, List.intercalate]
  unfold Hit.lines
  rw [hvia]
  cases f with
  | append =>
    simp only
    split_ifs with hsent
    · refine ⟨by simp, ?_⟩
      rw [hsingle, afterLastComma_of_forall hcomma, hspace]
    · refine ⟨by simp, ?_⟩
      have hlast : ∀ c ∈ 32 :: ip, c ≠ 44 := by simpa using hcomma
      have hjoin : commaJoin [commaJoin r.sent ++ [44, 32] ++ ip] =
          commaJoin r.sent ++ 44 :: 32 :: ip := by simp [commaJoin, List.intercalate]
      rw [hjoin, afterLastComma_append hlast, strip_space_cons, hspace]
  | line =>
    refine ⟨by simp, ?_⟩
    simp only
    by_cases hsent : r.sent = []
    · rw [hsent, List.nil_append, hsingle, afterLastComma_of_forall hcomma, hspace]
    · rw [commaJoin_concat hsent, afterLastComma_append hcomma, hspace]

lemma clientIp_eq_origin {T : Type*} {cfg : ProxyConfig} (htrust : cfg.trustProxy = true)
    {r : Hit T} (hr : r.Genuine cfg) : cfg.clientIp r.peer r.lines = r.origin := by
  unfold Hit.Genuine at hr
  unfold ProxyConfig.clientIp
  cases hvia : r.via with
  | none =>
    rw [hvia] at hr
    simp [hr, Hit.origin, hvia]
  | some v =>
    obtain ⟨f, ip⟩ := v
    rw [hvia] at hr
    obtain ⟨hpeer, hparse, hip⟩ := hr
    obtain ⟨hne, hcand⟩ := candidate_lines hvia hip
    have hsome : (cfg.ipAddress ip).isNone = false := by
      rw [← Option.not_isSome, hparse]
      rfl
    simp [htrust, hpeer, hne, hcand, hsome, Hit.origin, hvia]

/-! ### The rate limit -/

section Limit

variable {T : Type*} [LinearOrder T] [Sub T]

/-- The call of `allow` for a request. -/
def Hit.call (cfg : ProxyConfig) (r : Hit T) : Call Text T := ⟨r.now, cfg.clientIp r.peer r.lines⟩

/-- The request as it should be counted. -/
def Hit.originCall (r : Hit T) : Call Text T := ⟨r.now, r.origin⟩

/-- Nothing that clients put into `X-Forwarded-For` matters: requests from anywhere are answered as
the limiter answers them by the addresses that they really come from. At nondecreasing times, and as
long as no key is evicted, that is a sliding window over these addresses: a client neither escapes
its own limit nor uses up another's. -/
theorem limited_by_origin (hsub : SlidingWindow.MonotoneSub T) (cfg : ProxyConfig)
    (htrust : cfg.trustProxy = true) (limit maxKeys : ℕ) (hkeys : 0 < maxKeys) (window start : T)
    (rs : List (Hit T)) (hrs : ∀ r ∈ rs, r.Genuine cfg) :
    (RateLimiter.new limit window maxKeys hkeys start).answers (rs.map (Hit.call cfg)) =
        (RateLimiter.new limit window maxKeys hkeys start).answers (rs.map Hit.originCall) ∧
      ((rs.map Hit.now).Pairwise (· ≤ ·) →
        (RateLimiter.new limit window maxKeys hkeys start).NoEviction (rs.map Hit.originCall) →
        (RateLimiter.new limit window maxKeys hkeys start).answers (rs.map (Hit.call cfg)) =
          RateLimiter.referenceAnswers limit (RateLimiter.withinSpan window) []
            (rs.map Hit.originCall)) := by
  have hcalls : rs.map (Hit.call cfg) = rs.map Hit.originCall :=
    List.map_congr_left fun r hr => by
      rw [Hit.call, Hit.originCall, clientIp_eq_origin htrust (hrs r hr)]
  rw [hcalls]
  refine ⟨rfl, fun hmono hev => ?_⟩
  have hnow : ((rs.map Hit.originCall).map Call.now).Pairwise (· ≤ ·) := by
    rw [List.map_map]
    exact hmono
  exact RateLimiter.Tracked.answers_new hsub limit maxKeys hkeys window start hnow hev

end Limit

/-- A parser that takes digits and dots, and one proxy. -/
def oneProxy : ProxyConfig where
  Address := Text
  ipAddress t := if t ≠ [] ∧ t.all (fun c => Json.isDigit c || c = 46) then some t else none
  trustProxy := true
  trustedProxyNets := [fun a => a = text "10.0.0.1"]

/-- A client that claims to be another one, directly and through the proxy, and the other one. -/
def spoofedHits : List (Hit RateLimiter.Seconds) :=
  [⟨.ofBits 1 0 (by decide), text "1.1.1.1", [text "2.2.2.2"], none⟩,
    ⟨.ofBits 5 1 (by decide), text "10.0.0.1", [text "2.2.2.2", text "x"],
      some (.append, text "1.1.1.1")⟩,
    ⟨.ofBits 3 0 (by decide), text "10.0.0.1", [], some (.line, text "2.2.2.2")⟩]

theorem limited_by_origin_spoofedHits :
    (RateLimiter.new 1 RateLimiter.minute 4 (by decide) (.ofBits 0 0 (by decide))).answers
        (spoofedHits.map (Hit.call oneProxy)) = [true, false, true] ∧
      (RateLimiter.new 1 RateLimiter.minute 4 (by decide) (.ofBits 0 0 (by decide))).answers
          (spoofedHits.map (Hit.call oneProxy)) =
        RateLimiter.referenceAnswers 1 (RateLimiter.withinSpan RateLimiter.minute) []
          (spoofedHits.map Hit.originCall) :=
  ⟨by decide +kernel, (limited_by_origin RateLimiter.Seconds.monotoneSub oneProxy rfl 1 4
    (by decide) RateLimiter.minute _ spoofedHits (by decide)).2 (by decide +kernel)
    ⟨by decide +kernel, by decide +kernel, by decide +kernel, trivial⟩⟩

end Anticheat.Server
