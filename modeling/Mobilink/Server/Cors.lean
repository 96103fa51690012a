import Mobilink.Library.Fetch
import Mobilink.Server.Response

/-! The CORS layer around the proxy handler: the headers that every public response gets, the answer
to a preflight request, and what a browser makes of them. -/
namespace Mobilink.Server
open Mobilink.Core Header

def wildcard : Header.Value := .fromStatic "*" (by decide)
def allowed : Header.Value := .fromStatic "true" (by decide)
def byOrigin : Header.Value := .fromStatic "Origin" (by decide)

/-- The methods that a preflight answer lists. -/
def listedMethods : Header.Value :=
  .fromStatic "GET, POST, PUT, DELETE, PATCH, OPTIONS, HEAD" (by decide)

def addCorsHeaders (headers : Header.Map) (origin : Option Header.Value) : Header.Map :=
  match origin with
  | some origin =>
    ((headers.insert .allowOrigin origin).insert .allowCredentials allowed).insert .vary byOrigin
  | none => headers.insert .allowOrigin wildcard

def corsPreflightResponse (origin requestedHeaders : Option Header.Value) : Response where
  status := ⟨204, by decide⟩
  headers := (((addCorsHeaders [] origin).insert .allowMethods listedMethods).insert .allowHeaders
    (requestedHeaders.getD wildcard)).insert .maxAge (.fromStatic "86400" (by decide))
  body := []

/-- `next` is the response that `proxy_handler` ends with, when the request gets to it. -/
def corsLayer (request : PublicRequest) (next : Response) : Response :=
  if request.method = "OPTIONS" then
    corsPreflightResponse (request.headers.get "origin")
      (request.headers.get "access-control-request-headers")
  else { next with headers := addCorsHeaders next.headers (request.headers.get "origin") }

/-! ### What the layer sets -/

variable (headers : Header.Map) (origin : Header.Value)

@[simp] theorem allowOrigin_addCorsHeaders_some :
    (addCorsHeaders headers (some origin)).getAll .allowOrigin = [origin] := by
  simp +decide [addCorsHeaders, Header.Map.getAll_insert]

@[simp] theorem allowCredentials_addCorsHeaders_some :
    (addCorsHeaders headers (some origin)).getAll .allowCredentials = [allowed] := by
  simp +decide [addCorsHeaders, Header.Map.getAll_insert]

@[simp] theorem vary_addCorsHeaders_some :
    (addCorsHeaders headers (some origin)).getAll .vary = [byOrigin] := by
  simp [addCorsHeaders]

@[simp] theorem allowOrigin_addCorsHeaders_none :
    (addCorsHeaders headers none).getAll .allowOrigin = [wildcard] := by
  simp [addCorsHeaders]

/-- Without an `Origin`, all other lines are the application's. -/
theorem getAll_addCorsHeaders_none {name : Header.Name} (h : name ≠ .allowOrigin) :
    (addCorsHeaders headers none).getAll name = headers.getAll name :=
  Header.Map.getAll_insert_of_ne h headers wildcard

/-- Allow-origin and allow-credentials are what the request's `Origin` alone asks for, and never the
pair that is illegal. -/
structure OwnsOriginHeaders (origin : Option Header.Value) (headers : Header.Map) : Prop where
  allowOrigin : headers.getAll .allowOrigin = [origin.getD wildcard]
  allowCredentials : headers.getAll .allowCredentials = (origin.map fun _ => allowed).toList
  legal : ¬ (wildcard ∈ headers.getAll .allowOrigin ∧ allowed ∈ headers.getAll .allowCredentials)

theorem ownsOriginHeaders_some_iff :
    OwnsOriginHeaders (some origin) (addCorsHeaders headers (some origin)) ↔
      origin ≠ wildcard := by
  constructor
  · intro h he
    exact h.legal ⟨by simp [he], by simp⟩
  · intro hne
    refine ⟨by simp, by simp, ?_⟩
    intro hpair
    have hstar := hpair.1
    rw [allowOrigin_addCorsHeaders_some, List.mem_singleton] at hstar
    exact hne hstar.symm

theorem ownsOriginHeaders_none_iff :
    OwnsOriginHeaders none (addCorsHeaders headers none) ↔
      headers.getAll .allowCredentials = [] := by
  have hc : (addCorsHeaders headers none).getAll .allowCredentials =
      headers.getAll .allowCredentials := getAll_addCorsHeaders_none headers (by decide)
  constructor
  · exact fun h => hc.symm.trans h.allowCredentials
  · intro hnil
    refine ⟨by simp, hc.trans hnil, ?_⟩
    intro hpair
    have htrue := hpair.2
    rw [hc, hnil] at htrue
    exact absurd htrue (by simp)

section

variable (origin requestedHeaders : Option Header.Value)

@[simp] theorem allowMethods_corsPreflightResponse :
    (corsPreflightResponse origin requestedHeaders).headers.getAll .allowMethods =
      [listedMethods] := by
  simp +decide [corsPreflightResponse, Header.Map.getAll_insert]

@[simp] theorem allowHeaders_corsPreflightResponse :
    (corsPreflightResponse origin requestedHeaders).headers.getAll .allowHeaders =
      [requestedHeaders.getD wildcard] := by
  simp +decide [corsPreflightResponse, Header.Map.getAll_insert]

/-- Its other lines are the CORS headers, and nothing stands before them. -/
theorem getAll_corsPreflightResponse {name : Header.Name} (hmethods : name ≠ .allowMethods)
    (hheaders : name ≠ .allowHeaders) (hage : name ≠ .maxAge) :
    (corsPreflightResponse origin requestedHeaders).headers.getAll name =
      (addCorsHeaders [] origin).getAll name := by
  unfold corsPreflightResponse
  rw [Header.Map.getAll_insert_of_ne hage, Header.Map.getAll_insert_of_ne hheaders,
    Header.Map.getAll_insert_of_ne hmethods]

theorem allowOrigin_corsPreflightResponse :
    (corsPreflightResponse origin requestedHeaders).headers.getAll .allowOrigin =
      (addCorsHeaders [] origin).getAll .allowOrigin :=
  getAll_corsPreflightResponse _ _ (by decide) (by decide) (by decide)

theorem allowCredentials_corsPreflightResponse :
    (corsPreflightResponse origin requestedHeaders).headers.getAll .allowCredentials =
      (addCorsHeaders [] origin).getAll .allowCredentials :=
  getAll_corsPreflightResponse _ _ (by decide) (by decide) (by decide)

end

theorem OwnsOriginHeaders.congr {origin : Option Header.Value} {headers headers' : Header.Map}
    (ho : headers.getAll .allowOrigin = headers'.getAll .allowOrigin)
    (hc : headers.getAll .allowCredentials = headers'.getAll .allowCredentials) :
    OwnsOriginHeaders origin headers ↔ OwnsOriginHeaders origin headers' := by
  constructor
  · intro h
    exact ⟨ho ▸ h.allowOrigin, hc ▸ h.allowCredentials, by rw [← ho, ← hc]; exact h.legal⟩
  · intro h
    exact ⟨ho ▸ h.allowOrigin, hc ▸ h.allowCredentials, by rw [ho, hc]; exact h.legal⟩

/-- For every request and every end of it: the origin headers are the proxy's own exactly when the
`Origin` is not a literal `*` and, without an `Origin`, the application sends no allow-credentials
line of its own. -/
theorem ownsOriginHeaders_iff (r : PublicRequest) (q : Request) (response : Response)
    (h : q.response = some response) :
    OwnsOriginHeaders (r.headers.get "origin") (corsLayer r response).headers ↔
      r.headers.get "origin" ≠ some wildcard ∧
        (r.headers.get "origin" = none → r.method ≠ "OPTIONS" →
          ¬ q.AppSets .allowCredentials) := by
  have happ := getAll_response_eq_nil_iff h .allowCredentials (by decide) (by decide)
  by_cases hoptions : r.method = "OPTIONS"
  · have ho := allowOrigin_corsPreflightResponse (r.headers.get "origin")
      (r.headers.get "access-control-request-headers")
    have hc := allowCredentials_corsPreflightResponse (r.headers.get "origin")
      (r.headers.get "access-control-request-headers")
    rw [corsLayer, if_pos hoptions, OwnsOriginHeaders.congr ho hc]
    cases r.headers.get "origin" with
    | none => simp [ownsOriginHeaders_none_iff, hoptions]
    | some origin => simp [ownsOriginHeaders_some_iff]
  · rw [corsLayer, if_neg hoptions]
    cases r.headers.get "origin" with
    | none => simp [ownsOriginHeaders_none_iff, happ, hoptions]
    | some origin => simp [ownsOriginHeaders_some_iff]

/-- A page of another origin, and an application that sets headers of its own. -/
theorem ownsOriginHeaders_iff_page :
    let origin : Header.Value := .fromStatic "https://app.test" (by decide)
    let r : PublicRequest := ⟨"GET", "/api", none, [(⟨"origin", by decide⟩, origin)], some []⟩
    let q : Request := .answered ⟨⟨⟨Vector.replicate 16 1⟩⟩, 3000, "https://my-vps.com"⟩ ⟨0⟩
      .passthrough true ⟨200, [("Access-Control-Allow-Origin", "*")], []⟩
    ∃ response, q.response = some response ∧
      OwnsOriginHeaders (some origin) (corsLayer r response).headers := by
  intro origin r q
  refine ⟨_, rfl, (ownsOriginHeaders_iff r q _ rfl).mpr ⟨by decide, ?_⟩⟩
  intro hnone
  exact absurd hnone (by decide)

/-- Without an `Origin`, the application's own allow-credentials stays next to the wildcard. -/
theorem credentials_beside_wildcard :
    let r : PublicRequest := ⟨"GET", "/api", none, [], some []⟩
    let q : Request := .answered ⟨⟨⟨Vector.replicate 16 1⟩⟩, 3000, "https://my-vps.com"⟩ ⟨0⟩
      .passthrough true ⟨200, [("Access-Control-Allow-Credentials", "true")], []⟩
    ∃ response, q.response = some response ∧
      (corsLayer r response).headers.getAll .allowOrigin = [wildcard] ∧
      (corsLayer r response).headers.getAll .allowCredentials = [allowed] ∧
      ¬ OwnsOriginHeaders (r.headers.get "origin") (corsLayer r response).headers := by
  intro r q
  let response := buildResponse ⟨200, [("Access-Control-Allow-Credentials", "true")], []⟩
  have ho : (corsLayer r response).headers.getAll .allowOrigin = [wildcard] := by decide
  have hc : (corsLayer r response).headers.getAll .allowCredentials = [allowed] := by decide
  refine ⟨response, rfl, ho, hc, ?_⟩
  intro h
  exact h.legal ⟨by rw [ho]; simp, by rw [hc]; simp⟩

/-! ### What a browser makes of it -/

section

variable {f : Fetch.Request}

theorem combined_singleton {headers : Header.Map} {name : Header.Name} {value : Header.Value}
    (h : headers.getAll name = [value]) : Fetch.combined headers name = some value.octets := by
  rw [Fetch.combined, h]
  simp

/-- The CORS headers for an origin pass the CORS check for it, whatever stands before them. -/
theorem corsCheck_of_getAll {headers : Header.Map}
    (ho : headers.getAll .allowOrigin = [f.origin])
    (hc : headers.getAll .allowCredentials = [allowed]) : Fetch.corsCheck f headers = true := by
  have htrue : allowed.octets = "true".toList := by decide
  rw [Fetch.corsCheck, combined_singleton ho, combined_singleton hc, htrue]
  simp

theorem extract_singleton {headers : Header.Map} {name : Header.Name} {value : Header.Value}
    (h : headers.getAll name = [value]) (ht : (members value.octets).all Fetch.isToken = true) :
    Fetch.extract headers name = some (some (members value.octets)) := by
  rw [Fetch.extract, h]
  simp only [List.flatMap_cons, List.flatMap_nil, List.append_nil, ht, if_true]

/-- The requested names come back as the browser wrote them. -/
theorem members_of_requested {names : List String} (hne : names ≠ [])
    (h : ∀ n ∈ names, ∃ name : Header.Name, name.text = n) :
    members ([','].intercalate (names.map String.toList)) = names.map String.toList := by
  apply members_intercalate
  · simpa using hne
  · intro n hn
    obtain ⟨text, htext, rfl⟩ := List.mem_map.mp hn
    obtain ⟨name, rfl⟩ := h text htext
    refine ⟨by simpa using name.valid.1, ?_⟩
    intro c hc
    have hchar := List.all_eq_true.mp name.valid.2.2 c hc
    have hspace : c ≠ ' ' := ne_of_isNameChar hchar (by decide)
    have htab : c ≠ '\t' := ne_of_isNameChar hchar (by decide)
    exact ⟨ne_of_isNameChar hchar (by decide), by simp [isBlank, hspace, htab]⟩

/-- The methods that the preflight answer lists, and that a browser can send. -/
def answeredMethods : List String := ["GET", "POST", "PUT", "DELETE", "PATCH", "OPTIONS", "HEAD"]

theorem allowsMethod_listed :
    Fetch.allowsMethod f (members listedMethods.octets) = true ↔ f.sentMethod ∈ answeredMethods := by
  have hlisted : members listedMethods.octets = answeredMethods.map String.toList := by decide
  have hstar : (answeredMethods.map String.toList).contains "*".toList = false := by decide
  have hinj : f.sentMethod.toList ∈ answeredMethods.map String.toList ↔
      f.sentMethod ∈ answeredMethods := List.mem_map_of_injective fun _ _ h => String.toList_injective h
  rw [Fetch.allowsMethod, hlisted, hstar]
  simp only [Bool.and_false, Bool.or_false, Bool.or_eq_true, List.contains_iff_mem, hinj]
  constructor
  · intro h
    rcases h with h | h
    · exact h
    · have hsafe : ∀ m ∈ ["GET", "HEAD", "POST"], m ∈ answeredMethods := by decide
      exact hsafe _ (by simpa [Fetch.isSafelistedMethod] using h)
  · exact Or.inl

variable {isSafeValue : Header.Name → Header.Value → Bool}

/-- No value of an `authorization` line goes without asking. -/
theorem authorization_asks {line : Header.Name × Header.Value} (hline : line ∈ f.headers)
    (hname : line.1.text = "authorization") :
    line.1.text ∈ Fetch.unsafelistedNames isSafeValue f.headers := by
  apply Fetch.mem_unsafelistedNames hline
  rw [Fetch.isSafelisted, hname]
  have hnot : ["accept", "accept-language", "content-language", "content-type", "range"].contains
      "authorization" = false := by decide
  rw [hnot, Bool.false_and, Bool.false_and]

/-- A list with all the names that need consent lets them through. -/
theorem names_pass {listed : List (List Char)}
    (h : ∀ n ∈ Fetch.unsafelistedNames isSafeValue f.headers, n.toList ∈ listed) :
    Fetch.namesAuthorization f listed = true ∧
      (Fetch.unsafelistedNames isSafeValue f.headers).all (Fetch.allowsName f listed) = true := by
  have hlisted : ∀ n ∈ Fetch.unsafelistedNames isSafeValue f.headers,
      listed.any (fun s => Ascii.eqIgnoreCase n.toList s) = true := by
    intro n hn
    rw [List.any_eq_true]
    exact ⟨n.toList, h n hn, by simp [Ascii.eqIgnoreCase]⟩
  constructor
  · rw [Fetch.namesAuthorization, List.all_eq_true]
    intro line hline
    by_cases hname : line.1.text = "authorization"
    · rw [hlisted _ (authorization_asks hline hname), Bool.or_true]
    · simp [hname]
  · rw [List.all_eq_true]
    intro n hn
    rw [Fetch.allowsName, hlisted n hn, Bool.true_or]

/-- Reflecting the names that a browser asks for lets all of them through. -/
theorem reflected_names_pass {headers : Header.Map} (hp : Fetch.IsPreflight isSafeValue f headers) :
    let listed := members ((headers.get "access-control-request-headers").getD wildcard).octets
    listed.all Fetch.isToken = true ∧ Fetch.namesAuthorization f listed = true ∧
      (Fetch.unsafelistedNames isSafeValue f.headers).all (Fetch.allowsName f listed) = true := by
  have hnames := hp.names
  by_cases hnil : Fetch.unsafelistedNames isSafeValue f.headers = []
  · -- Nothing to ask for: the wildcard is not looked at.
    rw [if_pos hnil, Option.map_eq_none_iff] at hnames
    rw [hnames]
    refine ⟨by decide, names_pass ?_⟩
    intro n hn
    rw [hnil] at hn
    exact absurd hn (by simp)
  · rw [if_neg hnil] at hnames
    obtain ⟨value, hvalue, hoctets⟩ := Option.map_eq_some_iff.mp hnames
    have htexts : ∀ n ∈ Fetch.unsafelistedNames isSafeValue f.headers,
        ∃ name : Header.Name, name.text = n := by
      intro n hn
      obtain ⟨line, -, hline⟩ := Fetch.exists_of_mem_unsafelistedNames hn
      exact ⟨line.1, hline⟩
    rw [hvalue]
    dsimp only [Option.getD_some]
    rw [hoctets, members_of_requested hnil htexts]
    refine ⟨?_, names_pass fun n hn => List.mem_map_of_mem hn⟩
    rw [List.all_eq_true]
    intro s hs
    obtain ⟨n, hn, rfl⟩ := List.mem_map.mp hs
    obtain ⟨name, rfl⟩ := htexts n hn
    exact Fetch.isToken_text name

/-- With an `Origin`, either branch of the layer answers with that origin and with credentials. -/
theorem getAll_corsLayer_of_origin {r : PublicRequest} {origin : Header.Value}
    (h : r.headers.get "origin" = some origin) (response : Response) :
    (corsLayer r response).headers.getAll .allowOrigin = [origin] ∧
      (corsLayer r response).headers.getAll .allowCredentials = [allowed] := by
  rw [corsLayer, h]
  split_ifs
  · rw [allowOrigin_corsPreflightResponse, allowCredentials_corsPreflightResponse]
    simp
  · simp

/-- For every origin, method, set of header names and credentials mode, and whatever the proxy
responds: the browser lets the page see it exactly when the method is one of those that the preflight
answer lists. -/
theorem browser_lets_through_iff (preflight real : PublicRequest)
    (hpreflight : preflight.method = "OPTIONS" ∧
      Fetch.IsPreflight isSafeValue f preflight.headers)
    (hreal : real.method = f.sentMethod ∧ real.headers.get "origin" = some f.origin)
    (response ignored : Response) :
    (Fetch.preflightCheck isSafeValue f (corsLayer preflight ignored).status.code.toNat
        (corsLayer preflight ignored).headers = true ∧
      Fetch.corsCheck f (corsLayer real response).headers = true) ↔
      f.sentMethod ∈ answeredMethods := by
  obtain ⟨hoptions, hp⟩ := hpreflight
  obtain ⟨ho, hc⟩ := getAll_corsLayer_of_origin hreal.2 response
  obtain ⟨ho', hc'⟩ := getAll_corsLayer_of_origin hp.origin ignored
  obtain ⟨htokens, hauthorization, hallows⟩ := reflected_names_pass hp
  have hmethods : (corsLayer preflight ignored).headers.getAll .allowMethods =
      [listedMethods] := by
    rw [corsLayer, if_pos hoptions, allowMethods_corsPreflightResponse]
  have hnames : (corsLayer preflight ignored).headers.getAll .allowHeaders =
      [(preflight.headers.get "access-control-request-headers").getD wildcard] := by
    rw [corsLayer, if_pos hoptions, allowHeaders_corsPreflightResponse]
  have hstatus : (corsLayer preflight ignored).status.code.toNat = 204 := by
    rw [corsLayer, if_pos hoptions]
    rfl
  have hlisted : (members listedMethods.octets).all Fetch.isToken = true := by decide
  rw [Fetch.preflightCheck, corsCheck_of_getAll ho' hc', corsCheck_of_getAll ho hc, hstatus,
    extract_singleton hmethods hlisted, extract_singleton hnames htokens]
  dsimp only [Option.getD_some]
  rw [hauthorization, hallows]
  simpa using allowsMethod_listed

/-- A credentialed `PUT` with a JSON body and a token, and an application that is unreachable. -/
theorem browser_lets_through_iff_put :
    let origin : Header.Value := .fromStatic "https://app.test" (by decide)
    let authorization : Header.Name × Header.Value :=
      (⟨"authorization", by decide⟩, .fromStatic "Bearer t" (by decide))
    let f : Fetch.Request := ⟨origin, "put", [authorization], true, false⟩
    let preflight : PublicRequest := ⟨"OPTIONS", "/api", none, [(⟨"origin", by decide⟩, origin),
      (⟨"access-control-request-headers", by decide⟩, .fromStatic "authorization" (by decide))],
      some []⟩
    let real : PublicRequest := ⟨"PUT", "/api", none, [(⟨"origin", by decide⟩, origin),
      authorization], some []⟩
    ∃ response, (Request.failed (.pipeline .sessionNotFound)).response = some response ∧
      Fetch.preflightCheck (fun _ _ => true) f (corsLayer preflight response).status.code.toNat
        (corsLayer preflight response).headers = true ∧
      Fetch.corsCheck f (corsLayer real response).headers = true := by
  intro origin authorization f preflight real
  have hp : Fetch.IsPreflight (fun _ _ => true) f preflight.headers := ⟨by decide, by decide⟩
  have hf : f.sentMethod = "PUT" := by decide
  have hend : (Request.failed (.pipeline .sessionNotFound)).response =
      some (textResponse ((StatusCode.fromU16 404).getD .badGateway)
        "No active session for this URL.\n") := rfl
  refine ⟨_, hend,
    (browser_lets_through_iff preflight real ⟨rfl, hp⟩ ⟨hf.symm, by decide⟩ _ _).mpr ?_⟩
  rw [hf]
  decide

/-- A page calls with the method `REPORT`: the preflight answer does not list it. -/
theorem unlisted_method_blocked :
    let origin : Header.Value := .fromStatic "https://app.test" (by decide)
    let f : Fetch.Request := ⟨origin, "REPORT", [], true, false⟩
    let preflight : PublicRequest :=
      ⟨"OPTIONS", "/api", none, [(⟨"origin", by decide⟩, origin)], some []⟩
    Fetch.IsPreflight (fun _ _ => true) f preflight.headers ∧
      ∀ response, Fetch.preflightCheck (fun _ _ => true) f
        (corsLayer preflight response).status.code.toNat
        (corsLayer preflight response).headers = false := by
  intro origin f preflight
  refine ⟨⟨by decide, by decide⟩, ?_⟩
  intro response
  have hanswer : corsLayer preflight response = corsPreflightResponse (some origin) none := rfl
  rw [hanswer]
  decide

end

end Mobilink.Server
