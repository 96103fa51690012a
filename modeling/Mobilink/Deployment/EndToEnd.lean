import Mobilink.Deployment.Responses
import Mobilink.Server.Cookies
import Mobilink.Server.Rewrites

/-! What the application sees of a public request and what the browser sees of the application's
answer, in every mode of the session, over whole runs of the deployment. -/
namespace Mobilink.Deployment
open Mobilink.Core Mobilink.Server Mobilink.Cli ErudaInjector

/-! ### A readable line after the rewrites -/

theorem valid_setCookie :
    "set-cookie" ≠ "" ∧ "set-cookie".utf8ByteSize < 2 ^ 16 ∧
      "set-cookie".toList.all Header.isNameChar = true := by decide

def setCookie : Header.Name := ⟨"set-cookie", valid_setCookie⟩

theorem readable_rewriteSetCookieCrossSite {v : String}
    (hv : ∀ c ∈ v.toList, isReadableChar c = true) :
    ∀ c ∈ (rewriteSetCookieCrossSite v).toList, isReadableChar c = true := by
  have hblank : "; ".toList.all isReadableChar = true := by decide
  have hsecure : "Secure".toList.all isReadableChar = true := by decide
  have hsite : "SameSite=None".toList.all isReadableChar = true := by decide
  intro c hc
  rw [toList_rewriteSetCookieCrossSite, intercalate_written, List.mem_append,
    List.mem_flatMap] at hc
  rcases hc with hfirst | ⟨attr, hattr, hc⟩
  · cases hparts : cookieParts v with
    | nil => simp [hparts] at hfirst
    | cons first rest =>
      rw [hparts, List.headD_cons] at hfirst
      exact readable_of_mem_cookieParts hv (by simp [hparts]) c hfirst
  · rcases List.mem_append.mp hc with hc | hc
    · exact List.all_eq_true.mp hblank c hc
    · rcases mem_rewrittenAttributes hattr with hmem | rfl | rfl
      · exact readable_of_mem_cookieParts hv (List.mem_of_mem_tail (List.mem_filter.mp hmem).1) c hc
      · exact List.all_eq_true.mp hsecure c hc
      · exact List.all_eq_true.mp hsite c hc

/-- Readable text is a valid value of the same characters. -/
theorem exists_ofString? {s : String} (h : ∀ c ∈ s.toList, isReadableChar c = true) :
    ∃ value, Header.Value.ofString? s = some value ∧ value.octets = s.toList := by
  have hnat : ∀ c ∈ s.toList, c.toNat < 128 ∧ (32 ≤ c.toNat ∧ c.toNat ≠ 127 ∨ c.toNat = 9) := by
    intro c hc
    have hread := h c hc
    simp only [isReadableChar, Bool.or_eq_true, Bool.and_eq_true, decide_eq_true_eq,
      beq_iff_eq] at hread
    omega
  let bytes := s.toList.map fun c => UInt8.ofNat c.toNat
  have hbyte : ∀ c ∈ s.toList, (UInt8.ofNat c.toNat).toNat = c.toNat := by
    intro c hc
    have hlt := (hnat c hc).1
    rw [UInt8.toNat_ofNat']
    omega
  have hchars : bytes.map (fun b => Char.ofNat b.toNat) = s.toList := by
    rw [List.map_map]
    conv_rhs => rw [← List.map_id s.toList]
    apply List.map_congr_left
    intro c hc
    rw [Function.comp_apply, hbyte c hc, Char.ofNat_toNat, id_eq]
  have hvalid : bytes.all Header.isValueByte = true := by
    rw [List.all_eq_true]
    intro b hb
    obtain ⟨c, hc, rfl⟩ := List.mem_map.mp hb
    have hc' := (hnat c hc).2
    simp only [Header.isValueByte, Bool.or_eq_true, Bool.and_eq_true, decide_eq_true_eq,
      beq_iff_eq, UInt8.le_iff_toNat_le, ne_eq, ← UInt8.toNat_inj, hbyte c hc]
    exact hc'
  refine ⟨⟨bytes, hvalid⟩, Header.Value.ofString?_eq_some_iff.mpr ?_, hchars⟩
  have hascii := Utf8.encode_ascii bytes fun b hb => by
    obtain ⟨c, hc, rfl⟩ := List.mem_map.mp hb
    rw [hbyte c hc]
    exact (hnat c hc).1
  rw [Utf8.toList_toByteArray, ← hchars]
  exact hascii

/-- What the mode makes of a line. -/
def lineIn (auth : AuthMode) : String × String → String × String :=
  if auth = .cookie then rewriteLine else id

/-- What the mode makes of a value. -/
def valueIn (auth : AuthMode) (name : Header.Name) (s : String) : String :=
  if auth = .cookie ∧ name.text = "set-cookie" then rewriteSetCookieCrossSite s else s

theorem lineIn_text (auth : AuthMode) (name : Header.Name) (s : String) :
    lineIn auth (name.text, s) = (name.text, valueIn auth name s) := by
  have hname := name.eqIgnoreCase_text_iff (s := "set-cookie") (by decide)
  unfold lineIn valueIn
  by_cases hauth : auth = .cookie
  · by_cases hcookie : name.text = "set-cookie"
    · have htrue : eqIgnoreAsciiCase name.text "set-cookie" = true := hname.mpr hcookie
      rw [if_pos hauth, if_pos ⟨hauth, hcookie⟩, rewriteLine]
      exact if_pos htrue
    · have hfalse : ¬ eqIgnoreAsciiCase name.text "set-cookie" = true := fun h => hcookie (hname.mp h)
      rw [if_pos hauth, if_neg (fun h => hcookie h.2), rewriteLine]
      exact if_neg hfalse
  · rw [if_neg hauth, if_neg (fun h => hauth h.1), id_eq]

theorem readable_valueIn (auth : AuthMode) (name : Header.Name) {s : String}
    (h : ∀ c ∈ s.toList, isReadableChar c = true) :
    ∀ c ∈ (valueIn auth name s).toList, isReadableChar c = true := by
  unfold valueIn
  split_ifs
  · exact readable_rewriteSetCookieCrossSite h
  · exact h

/-- The lines of one name that the CLI reads. -/
theorem filter_readableLines (headers : Header.Map) (name : Header.Name) :
    ((readableLines headers).filter fun line => eqIgnoreAsciiCase line.1 name.text) =
      ((headers.getAll name).filterMap Header.Value.toStr).map fun s => (name.text, s) := by
  have hlower : Ascii.toLowercase name.text.toList = name.text.toList := name.toLowercase_text
  unfold readableLines
  induction headers with
  | nil => rfl
  | cons line headers ih =>
    have hsame : eqIgnoreAsciiCase line.1.text name.text = true ↔ line.1 = name := by
      refine (line.1.eqIgnoreCase_text_iff hlower).trans ⟨fun h => ?_, fun h => by rw [h]⟩
      cases hl : line.1
      cases hn : name
      rw [hl, hn] at h
      congr
    rw [List.filterMap_cons, Header.Map.getAll_cons]
    cases hread : line.2.toStr with
    | none => by_cases h : line.1 = name <;> simpa [hread, h] using ih
    | some s =>
      by_cases h : line.1 = name
      · have hpos := hsame.mpr h
        simpa [hread, h, hpos, h ▸ hpos] using ih
      · have hneg : eqIgnoreAsciiCase line.1.text name.text = false := by
          rw [Bool.eq_false_iff]
          exact fun htrue => h (hsame.mp htrue)
        simpa [hread, h, hneg] using ih

/-! ### The answer of the application, as the browser sees it -/

/-- What the proxy makes of the frame of an answer. -/
def rewritten (publicUrl : String) (auth : AuthMode) (erudaDisabled : Bool) (a : Reply) :
    HttpResponseData :=
  applyEruda ⟨transform, publicUrl⟩ erudaDisabled (applyAuthMode auth a.toFrame)

section

variable (publicUrl : String) (auth : AuthMode) (erudaDisabled : Bool) (a : Reply)

theorem rewritten_eq : ∃ lines : List (String × String), lines.Sublist (readableLines a.headers) ∧
    (rewritten publicUrl auth erudaDisabled a).status = a.status ∧
    (rewritten publicUrl auth erudaDisabled a).headers = lines.map (lineIn auth) ∧
    (rewritten publicUrl auth erudaDisabled a).body =
      (applyEruda ⟨transform, publicUrl⟩ erudaDisabled a.toFrame).body := by
  obtain ⟨hstatus, hheaders, -⟩ := applyEruda_eq publicUrl erudaDisabled a.toFrame
  refine ⟨(applyEruda ⟨transform, publicUrl⟩ erudaDisabled a.toFrame).headers, ?_, ?_, ?_, ?_⟩
  · rw [hheaders]
    split_ifs
    · exact List.filter_sublist
    · exact List.Sublist.refl _
  · rw [rewritten, applyEruda_applyAuthMode, applyAuthMode_eq]
    exact hstatus
  · rw [rewritten, applyEruda_applyAuthMode, applyAuthMode_eq]
    rfl
  · rw [rewritten, applyEruda_applyAuthMode, applyAuthMode_eq]

/-- Every line of the rewritten frame is valid. -/
theorem buildable_rewritten : Buildable (rewritten publicUrl auth erudaDisabled a).headers := by
  obtain ⟨lines, hlines, -, hheaders, -⟩ := rewritten_eq publicUrl auth erudaDisabled a
  rw [hheaders]
  intro line hline _
  obtain ⟨original, hmem, rfl⟩ := List.mem_map.mp hline
  obtain ⟨⟨name, value⟩, -, heq⟩ := List.mem_filterMap.mp (hlines.subset hmem)
  obtain ⟨s, hread, rfl⟩ := Option.map_eq_some_iff.mp heq
  rw [lineIn_text]
  obtain ⟨value', hvalue, -⟩ :=
    exists_ofString? (readable_valueIn auth name (isReadableChar_of_toStr hread))
  have hvalid : Header.line? (name.text, valueIn auth name s) = some (name, value') :=
    Header.line?_eq_some_iff.mpr ⟨name.ofString?_text, hvalue⟩
  rw [hvalid, Option.isSome_some]

theorem filter_rewrittenLines {name : Header.Name} (hname : name.text ≠ "content-length") :
    ((rewritten publicUrl auth erudaDisabled a).headers.filter fun line =>
        eqIgnoreAsciiCase line.1 name.text) =
      ((a.headers.getAll name).filterMap Header.Value.toStr).map fun s =>
        (name.text, valueIn auth name s) := by
  have hlength : eqIgnoreAsciiCase name.text "content-length" = false := by
    rw [Bool.eq_false_iff]
    exact fun h => hname ((name.eqIgnoreCase_text_iff (by decide)).mp h)
  have hkept := filter_applyEruda publicUrl erudaDisabled a.toFrame hlength
  have hlines : ∀ lines : List (String × String),
      ((lines.map (lineIn auth)).filter fun line => eqIgnoreAsciiCase line.1 name.text) =
        (lines.filter fun line => eqIgnoreAsciiCase line.1 name.text).map (lineIn auth) := by
    intro lines
    unfold lineIn
    split_ifs
    · exact filter_rewriteLine (fun other => eqIgnoreAsciiCase other name.text) lines
    · simp
  rw [rewritten, applyEruda_applyAuthMode, applyAuthMode_eq]
  change ((List.map (lineIn auth) _).filter _) = _
  rw [hlines, hkept]
  change ((readableLines a.headers).filter _).map (lineIn auth) = _
  rw [filter_readableLines, List.map_map]
  apply List.map_congr_left
  exact fun s _ => lineIn_text auth name s

end

/-- The headers that the CORS layer sets on a response. -/
def isCors (name : Header.Name) : Bool :=
  decide (name = .allowOrigin) || decide (name = .allowCredentials) || decide (name = .vary)

theorem getAll_addCorsHeaders_of_not_isCors {name : Header.Name} (h : isCors name = false)
    (headers : Header.Map) (origin : Option Header.Value) :
    (addCorsHeaders headers origin).getAll name = headers.getAll name := by
  simp only [isCors, Bool.or_eq_false_iff, decide_eq_false_iff_not] at h
  obtain ⟨⟨horigin, hcredentials⟩, hvary⟩ := h
  cases origin with
  | none => exact getAll_addCorsHeaders_none headers horigin
  | some origin =>
    rw [addCorsHeaders, Header.Map.getAll_insert_of_ne hvary,
      Header.Map.getAll_insert_of_ne hcredentials, Header.Map.getAll_insert_of_ne horigin]

/-- The browser sees the answer `a` as the mode and the flag leave it: its status, its body with the
debug console in it, and every readable value of every header that the proxy does not set itself. -/
structure Shows (publicUrl : String) (auth : AuthMode) (erudaDisabled : Bool) (a : Reply)
    (x : Response) : Prop where
  status : x.status.code = a.status
  body : x.body = (applyEruda ⟨transform, publicUrl⟩ erudaDisabled a.toFrame).body
  values : ∀ name : Header.Name, strippedResponseHeaders.contains name.text = false →
    isCors name = false → (x.headers.getAll name).map Header.Value.octets =
      ((a.headers.getAll name).filterMap Header.Value.toStr).map fun s =>
        (valueIn auth name s).toList

theorem shows_buildResponse (publicUrl : String) (auth : AuthMode) (erudaDisabled : Bool) {a : Reply}
    (hstatus : 100 ≤ a.status ∧ a.status ≤ 999) {request : PublicRequest}
    (hm : request.method ≠ "OPTIONS") :
    Shows publicUrl auth erudaDisabled a
      (corsLayer request (buildResponse (rewritten publicUrl auth erudaDisabled a))) := by
  have hbuildable := buildable_rewritten publicUrl auth erudaDisabled a
  obtain ⟨lines, -, hcode, -, hbody⟩ := rewritten_eq publicUrl auth erudaDisabled a
  have hfrom : StatusCode.fromU16 a.status = some ⟨a.status, hstatus⟩ := dif_pos hstatus
  rw [corsLayer, if_neg hm]
  constructor
  · rw [buildResponse_of_buildable hbuildable, hcode, hfrom]
    rfl
  · rw [buildResponse_of_buildable hbuildable]
    exact hbody
  · intro name hstripped hcors
    have hpassed : isPassed name.text = true := by rw [isPassed_text, hstripped]; rfl
    have hlength : name.text ≠ "content-length" := by
      intro hname
      rw [hname] at hstripped
      exact absurd hstripped (by decide)
    rw [getAll_addCorsHeaders_of_not_isCors hcors, getAll_buildResponse hbuildable,
      octets_getAll_passedLines hbuildable hpassed, frameValues,
      filter_rewrittenLines publicUrl auth erudaDisabled a hlength, List.map_map]
    apply List.map_congr_left
    intro s hs
    obtain ⟨value, -, hread⟩ := List.mem_filterMap.mp hs
    obtain ⟨value', hvalue, hoctets⟩ :=
      exists_ofString? (readable_valueIn auth name (isReadableChar_of_toStr hread))
    rw [← hoctets, Header.Value.octets_of_ofString? hvalue]
    rfl

/-! ### Over whole runs -/

namespace Traffic

variable {η ω : Type*} {machines : Machines η ω} {world : ω} {s : State η ω} {publicUrl : String}

/-- The application is sent the request of the browser: its method, its body, the readable ones of
its kept lines, and behind them what the proxy says of the scheme and the host. -/
structure Sees (publicUrl : String) (request : PublicRequest) (q : Outgoing η) : Prop where
  method : q.method = request.method
  body : request.body = some q.body
  headers : ∃ proto, Header.Value.ofString? (forwardedProto publicUrl request.headers) = some proto ∧
    q.headers = (request.headers.filter isKept).filter (fun line => line.2.isReadable) ++
      (xForwardedProto, proto) :: hostLine request.headers

/-- A replay that got one answer, and did not follow it, ends with that answer. -/
theorem replayed_singleton {client : HttpClient η} {port : UInt16} {request : HttpRequestData}
    {q : Outgoing η} {a : Reply} {response : HttpResponseData}
    (h : Replayed client port request [(q, some a)] response) (hfollow : client.follow q a = none) :
    buildRequest client port request = .ok q ∧ response = a.toFrame := by
  generalize hes : [(q, some a)] = es at h
  cases h with
  | refused _ => exact absurd hes (by simp)
  | @sent q₀ _ result hq hexchanged =>
    rw [← hes] at hexchanged
    obtain ⟨hempty, -⟩ | ⟨b, rest, hhead⟩ := hexchanged.head_cases
    · exact absurd hempty (by simp)
    · have hsame : q = q₀ := (Prod.mk.inj (List.cons.inj hhead).1).1
      rw [← hsame] at hq hexchanged
      have hended := (hexchanged.eq_singleton hfollow).2
      rw [Redirects.Progress.ended.injEq] at hended
      rw [hended]
      exact ⟨hq, rfl⟩

/-- In every run, in every mode: when a request has led to one exchange with a local server, the
application was sent what the browser sent, and the browser is shown what the application answered. -/
theorem sees_and_shows {localhost : η}
    (hlocalhost : machines.client.parseHost "localhost".toList = some localhost)
    (hs : (system ⟨transform, publicUrl⟩ machines world).Reachable s) {r : ℕ}
    {request : PublicRequest} (harrived : s.arrived r = some request) (hhttp : FromHttp request)
    {x : Response} (hx : s.responses r = some x) {session : Session} {c : Connection}
    {auth : AuthMode} {erudaDisabled : Bool} {data : HttpResponseData}
    (hanswered : s.server.requests r = .answered session c auth erudaDisabled data)
    {q : Outgoing η} {a : Reply} (hsent : s.sent r = [(q, some a)])
    (hfollow : machines.client.follow q a = none) (hstatus : 100 ≤ a.status ∧ a.status ≤ 999) :
    Sees publicUrl request q ∧ Shows publicUrl auth erudaDisabled a x := by
  obtain ⟨-, -, received, -, -, -, hdata, hreplay⟩ := replayed_of_answered hs hanswered
  split_ifs at hreplay with hcli
  · exact absurd (hsent.symm.trans hreplay) (by simp)
  · obtain ⟨hello, frame, -, ⟨request', body, harrived', hm, hbody, hframe⟩, hreplayed⟩ := hreplay
    have hsame : request = request' := Option.some.inj (harrived.symm.trans harrived')
    rw [← hsame] at hm hbody hframe
    rw [hsent] at hreplayed
    obtain ⟨hq, hreceived⟩ := replayed_singleton hreplayed hfollow
    rw [hframe] at hq
    obtain ⟨-, hmethod, hqbody, hheaders⟩ := replayed_of_ok hlocalhost hhttp hq
    have hsome : request.body = some body := ((toBytes_eq_some_iff _ _ _).mp hbody).1
    refine ⟨⟨hmethod, by rw [hqbody, hsome], hheaders⟩, ?_⟩
    obtain ⟨request', harrived', hcases⟩ := (own_of_reachable hs r).arrived.response x hx
    have hsame' : request = request' := Option.some.inj (harrived.symm.trans harrived')
    rw [← hsame'] at hcases
    rcases hcases with ⟨hoptions, -⟩ | ⟨inner, hinner, rfl⟩
    · exact absurd hoptions hm
    · rw [State.at, hanswered] at hinner
      rw [← Option.some.inj hinner, hdata, hreceived]
      exact shows_buildResponse publicUrl auth erudaDisabled hstatus hm

/-- A login in `Cookie` mode: the browser gets the cookie that may cross sites. -/
theorem sees_and_shows_login :
    let c : Connection := ⟨0⟩
    let owner : SessionId := ⟨⟨Vector.replicate 16 1⟩⟩
    let publicUrl := "https://my-vps.com"
    let order : TunnelMap.Order := (∅ : TunnelMap.Order).insert owner ⟨c, true, .cookie⟩
    let a : Reply := ⟨200, [(setCookie, .fromStatic "sid=1" (by decide))], [7]⟩
    let request : PublicRequest := ⟨"POST", "/login", none, [], some [1]⟩
    let q : Outgoing (List Char) := ⟨"POST", ⟨none, "localhost".toList, 3000, "/login".toList⟩,
      [(xForwardedProto, .fromStatic "https" (by decide))], [1]⟩
    let traffic := system ⟨transform, publicUrl⟩ (constantMachines a) []
    let events := (handshake c ⟨3000, true, .cookie⟩ owner).map Event.server ++ replay 0 request ++
      reply 0 a.toFrame order
    ∃ s x, traffic.run traffic.init events = some s ∧ s.responses 0 = some x ∧
      Sees publicUrl request q ∧ Shows publicUrl .cookie true a x ∧
      x.headers.getAll setCookie = [.fromStatic "sid=1; Secure; SameSite=None" (by decide)] := by
  intro c owner publicUrl order a request q traffic events
  have hlocalhost : plainHosts.parseHost "localhost".toList = some "localhost".toList := by decide
  have hpath : "/login".toList = '/' :: "login".toList := by decide
  have hhttp : FromHttp request :=
    ⟨by decide, Or.inr (Or.inr ⟨_, hpath⟩), fun _ _ _ h => absurd h.length_le (by simp [request])⟩
  have hend : (traffic.run traffic.init events).map (fun s => (s.sent 0, s.server.requests 0)) =
      some ([(q, some a)], .answered ⟨owner, 3000, publicUrl⟩ c .cookie true
        ⟨200, [("set-cookie", "sid=1; Secure; SameSite=None")], [7]⟩) := by decide
  have hshown : (traffic.run traffic.init events).map (fun s =>
      (s.responses 0).map fun x => x.headers.getAll setCookie) =
      some (some [.fromStatic "sid=1; Secure; SameSite=None" (by decide)]) := by decide
  have hrequest : (traffic.run traffic.init events).map (fun s => (s.arrived 0).any fun r =>
      decide (r.method = "POST" ∧ r.path = "/login" ∧ r.query = none ∧ r.headers.length = 0 ∧
        r.body = some [1])) = some true := by decide
  obtain ⟨s, hrun, hfacts⟩ := Option.map_eq_some_iff.mp hend
  rw [hrun] at hshown hrequest
  obtain ⟨hsent, hanswered⟩ := Prod.mk.inj hfacts
  obtain ⟨x, hx, hcookies⟩ := Option.map_eq_some_iff.mp (Option.some.inj hshown)
  obtain ⟨⟨method, path, query, headers, body⟩, harrived, hfields⟩ :=
    (Option.any_eq_true _ _).mp (Option.some.inj hrequest)
  simp only [decide_eq_true_eq, List.length_eq_zero_iff] at hfields
  obtain ⟨rfl, rfl, rfl, rfl, rfl⟩ := hfields
  obtain ⟨hsees, hshows⟩ := sees_and_shows hlocalhost ⟨events, hrun⟩ harrived hhttp hx hanswered hsent
    (not_follow_plainHosts q a) (by decide)
  exact ⟨s, x, hrun, hx, hsees, hshows, hcookies⟩

end Traffic
end Mobilink.Deployment
