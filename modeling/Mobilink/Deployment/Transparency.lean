import Mobilink.Cli.Replay
import Mobilink.Cli.Stream
import Mobilink.Server.FrameLimits
import Mobilink.Server.Response

/-! What of a public request arrives at the developer's application, and what of the application's
answer arrives at the browser: the header lines, filtered and converted on both sides of the tunnel,
and everything that can keep a request or an answer from getting through. -/
namespace Mobilink.Deployment
open Mobilink.Core Mobilink.Server Mobilink.Cli

/-! ### The request -/

/-- What the types of the HTTP library promise of a request: its method is a token, its path is
absolute, the asterisk, or empty, and its map lists the lines of a name together. -/
structure FromHttp (r : PublicRequest) : Prop where
  method : isMethod r.method = true
  path : r.path = "" ∨ r.path = "*" ∨ ∃ rest, r.path.toList = '/' :: rest
  headers : r.headers.Grouped

/-- The lines that are not meant to arrive as the browser sent them. -/
def droppedNames : List String :=
  ["host", "connection", "accept-encoding", "content-length", "transfer-encoding",
    "x-forwarded-proto", "x-forwarded-host"]

def isKept (line : Header.Name × Header.Value) : Bool := !droppedNames.contains line.1.text

def xForwardedProto : Header.Name := ⟨"x-forwarded-proto", by decide⟩
def xForwardedHost : Header.Name := ⟨"x-forwarded-host", by decide⟩

/-- The application is sent the browser's request: its method, its body, its kept lines as they
are, and behind them what the proxy says of the scheme and the host. -/
def RequestArrives {η : Type*} (client : HttpClient η) (port : UInt16) (proxy : ProxyState)
    (r : PublicRequest) (body : List UInt8) : Prop :=
  ∃ frame request q, Request.acceptRequest proxy r = .readCurrent frame ∧
    receiveRequest frame = some request ∧ buildRequest client port request = .ok q ∧
    q.method = r.method ∧ q.body = body ∧ ∃ proto host,
      Header.Value.ofString? (forwardedProto proxy.publicUrl r.headers) = some proto ∧
      q.headers = r.headers.filter isKept ++ (xForwardedProto, proto) :: host ∧
      host.length ≤ 1 ∧ ∀ line ∈ host, line.1 = xForwardedHost

theorem isForwarded_eq_isKept (line : Header.Name × Header.Value) :
    isForwarded line.1 = isKept line := by
  have hproto := line.1.eqIgnoreCase_text_iff (s := "x-forwarded-proto") (by decide)
  have hhost := line.1.eqIgnoreCase_text_iff (s := "x-forwarded-host") (by decide)
  rw [isForwarded, isKept, eqIgnoreAsciiCase, eqIgnoreAsciiCase, Bool.eq_iff_iff]
  simp only [strippedRequestHeaders, droppedNames, Bool.and_eq_true, Bool.not_eq_true',
    ← Bool.not_eq_true, hproto, hhost, List.contains_iff_mem, List.mem_cons, List.not_mem_nil,
    or_false, not_or, and_assoc]

/-- What the proxy says of the host, as a line of the replayed request. -/
def hostLine (headers : Header.Map) : Header.Map :=
  ((((headers.get "x-forwarded-host").or (headers.get "host")).filter Header.Value.isReadable).map
    fun host => (xForwardedHost, host)).toList

theorem mapM_buildLine_forwardedHost (headers : Header.Map) :
    ((forwardedHost headers).map fun host => ("X-Forwarded-Host", host)).toList.mapM buildLine =
      some (hostLine headers) := by
  rw [forwardedHost, hostLine]
  cases (headers.get "x-forwarded-host").or (headers.get "host") with
  | none => rfl
  | some value =>
    have hreadable := value.isReadable_eq
    rw [Option.bind_some, Option.filter_some]
    cases hread : value.toStr with
    | none =>
      rw [hread] at hreadable
      simp [hreadable]
    | some host =>
      rw [hread] at hreadable
      have hname : Header.Name.ofString? "X-Forwarded-Host" = some xForwardedHost := by decide
      have hvalue := Header.Value.ofString?_of_toStr hread
      have hbuild : buildLine ("X-Forwarded-Host", host) = some (xForwardedHost, value) :=
        Header.line?_eq_some_iff.mpr ⟨hname, hvalue⟩
      simp [hreadable, hbuild]

/-- No line of the proxy is one that the client computes itself. -/
theorem filter_not_isRecomputed (publicUrl : String) (headers : Header.Map) :
    (requestHeaders publicUrl headers).filter (fun line => !isRecomputed line.1) =
      requestHeaders publicUrl headers := by
  rw [List.filter_eq_self]
  intro line hline
  rw [Bool.not_eq_true', ← Bool.not_eq_true]
  intro hrecomputed
  rw [requestHeaders, List.append_assoc] at hline
  rcases List.mem_append.mp hline with hread | hown
  · obtain ⟨original, horiginal, heq⟩ := List.mem_filterMap.mp hread
    obtain ⟨-, hforwarded⟩ := List.mem_filter.mp horiginal
    obtain ⟨s, -, hs⟩ := Option.map_eq_some_iff.mp heq
    rw [← hs] at hrecomputed
    rw [isForwarded, Bool.and_eq_true, Bool.not_eq_true'] at hforwarded
    rcases (isRecomputed_text_iff original.1).mp hrecomputed with hname | hname
    · rw [hname] at hforwarded
      exact absurd hforwarded.1 (by decide)
    · rw [hname] at hforwarded
      exact absurd hforwarded.1 (by decide)
  · rcases List.mem_append.mp hown with hproto | hhost
    · rw [List.mem_singleton.mp hproto] at hrecomputed
      exact absurd hrecomputed (show ¬ isRecomputed "X-Forwarded-Proto" = true by decide)
    · obtain ⟨host, -, heq⟩ := Option.map_eq_some_iff.mp (Option.mem_toList.mp hhost)
      rw [← heq] at hrecomputed
      exact absurd hrecomputed (show ¬ isRecomputed "X-Forwarded-Host" = true by decide)

theorem name_of_mem_hostLine {headers : Header.Map} {line : Header.Name × Header.Value}
    (h : line ∈ hostLine headers) : line.1 = xForwardedHost := by
  obtain ⟨host, -, heq⟩ := Option.map_eq_some_iff.mp (Option.mem_toList.mp h)
  rw [← heq]

theorem length_hostLine_le (headers : Header.Map) : (hostLine headers).length ≤ 1 := by
  rw [hostLine, Option.length_toList]
  split_ifs <;> omega

/-- None of the proxy's own lines is one of the browser's. -/
theorem filter_isKept_own (proto : Header.Value) {host : Header.Map}
    (h : ∀ line ∈ host, line.1 = xForwardedHost) :
    ((xForwardedProto, proto) :: host).filter isKept = [] := by
  rw [List.filter_eq_nil_iff]
  intro line hline
  have hname : line.1 = xForwardedProto ∨ line.1 = xForwardedHost := by
    rcases List.mem_cons.mp hline with heq | hmem
    · rw [heq]
      exact Or.inl rfl
    · exact Or.inr (h line hmem)
  rw [isKept, Bool.not_eq_true']
  rcases hname with hname | hname <;> rw [hname] <;> decide

/-- The lines that the CLI builds from those of the proxy. -/
theorem buildLines_requestHeaders (publicUrl : String) (headers : Header.Map) :
    buildLines (requestHeaders publicUrl headers) =
      (Header.Value.ofString? (forwardedProto publicUrl headers)).map fun proto =>
        (headers.filter isKept).filter (fun line => line.2.isReadable) ++
          (xForwardedProto, proto) :: hostLine headers := by
  have hkept : (headers.filter fun line => isForwarded line.1) = headers.filter isKept :=
    List.filter_congr fun line _ => isForwarded_eq_isKept line
  have hname : Header.Name.ofString? "X-Forwarded-Proto" = some xForwardedProto := by decide
  rw [buildLines, filter_not_isRecomputed, requestHeaders, hkept]
  change (readableLines _ ++ _ ++ _).mapM buildLine = _
  rw [List.mapM_append, List.mapM_append, mapM_buildLine_readableLines,
    mapM_buildLine_forwardedHost, List.mapM_cons, buildLine, hname]
  cases Header.Value.ofString? (forwardedProto publicUrl headers) with
  | none => rfl
  | some proto => simp

/-- The lines that the CLI appends come in the order in which a map lists them. -/
theorem grouped_replayed {headers : Header.Map} (h : headers.Grouped) (proto : Header.Value) :
    Header.Map.Grouped (((headers.filter isKept).filter fun line => line.2.isReadable) ++
      (xForwardedProto, proto) :: hostLine headers) := by
  have hread : Header.Map.Grouped ((headers.filter isKept).filter fun line => line.2.isReadable) :=
    h.sublist (List.filter_sublist.trans List.filter_sublist)
  have hnot : ∀ name : Header.Name, droppedNames.contains name.text = true →
      name ∉ ((headers.filter isKept).filter fun line => line.2.isReadable).map Prod.fst := by
    intro name hname hmem
    obtain ⟨line, hline, heq⟩ := List.mem_map.mp hmem
    have hkept := (List.mem_filter.mp (List.mem_filter.mp hline).1).2
    rw [isKept, heq, hname] at hkept
    exact absurd hkept (by simp)
  have hproto : Header.Map.Grouped (((headers.filter isKept).filter fun line => line.2.isReadable) ++
      [(xForwardedProto, proto)]) := hread.concat (hnot xForwardedProto (by decide))
  rw [List.append_cons, hostLine]
  cases ((headers.get "x-forwarded-host").or (headers.get "host")).filter Header.Value.isReadable with
  | none => simpa using hproto
  | some host =>
    apply hproto.concat
    have hne : xForwardedHost ≠ xForwardedProto := by decide
    simpa [hne] using hnot xForwardedHost (by decide)

/-- Of the targets that a public request can have, only the asterisk leaves no URL. Any other leads to
the exposed port. -/
theorem parse_target {η : Type*} {client : HttpClient η} {localhost : η}
    (hlocalhost : client.parseHost "localhost".toList = some localhost) (port : UInt16)
    {r : PublicRequest} (hr : FromHttp r) :
    if r.path = "*" then Url.parse client.parseHost (replayUrl port (target r)).toList = none
    else ∃ url, Url.parse client.parseHost (replayUrl port (target r)).toList = some url ∧
      url.userinfo = none ∧ url.host = localhost ∧ url.port = port.toNat := by
  -- What follows the path begins with a question mark, or there is nothing.
  obtain ⟨rest, htarget, hrest⟩ : ∃ rest, (target r).toList = r.path.toList ++ rest ∧
      Url.addedAuthority rest = [] := by
    unfold target
    cases r.query with
    | none => exact ⟨[], by simp, rfl⟩
    | some query =>
      refine ⟨'?' :: query.toList, ?_, Url.addedAuthority_cons (by decide) (by decide) (by decide) _⟩
      have hmark : "?".toList = ['?'] := by decide
      dsimp only
      rw [String.toList_append, String.toList_append, hmark, List.append_assoc]
      rfl
  by_cases hstar : r.path = "*"
  · rw [if_pos hstar]
    have hpath : r.path.toList = ['*'] := by
      rw [hstar]
      decide
    have hadded : Url.addedAuthority (target r).toList = ['*'] := by
      rw [htarget, hpath, List.cons_append, List.nil_append,
        Url.addedAuthority_cons_of_not_ends (by decide) (by decide) (by decide), hrest]
    have hparse := parse_replayUrl hlocalhost port (target r)
    rw [hadded, if_neg (by decide), if_neg (fun h => absurd h.1 (by decide))] at hparse
    exact Option.map_eq_none_iff.mp hparse
  · rw [if_neg hstar]
    apply parse_replayUrl_of_path hlocalhost
    rcases hr.path with hpath | hpath | hpath
    · rw [htarget, hpath]
      exact hrest
    · exact absurd hpath hstar
    · obtain ⟨path, hpath⟩ := hpath
      rw [htarget, hpath, List.cons_append, Url.addedAuthority_slash]

section

variable {η : Type*} {client : HttpClient η} {localhost : η} {port : UInt16} {proxy : ProxyState}
  {r : PublicRequest} {body : List UInt8}

/-- A replayed request has the method, the body and the readable kept lines of the public one. -/
theorem replayed_of_ok (hlocalhost : client.parseHost "localhost".toList = some localhost)
    (hr : FromHttp r) {publicUrl : String} {q : Outgoing η}
    (h : buildRequest client port (requestData publicUrl r body) = .ok q) :
    r.path ≠ "*" ∧ q.method = r.method ∧ q.body = body ∧ ∃ proto,
      Header.Value.ofString? (forwardedProto publicUrl r.headers) = some proto ∧
      q.headers = (r.headers.filter isKept).filter (fun line => line.2.isReadable) ++
        (xForwardedProto, proto) :: hostLine r.headers := by
  obtain ⟨-, url, lines, hurl, hlines, hq⟩ := buildRequest_eq_ok_iff.mp h
  have hparse := parse_target hlocalhost port hr
  have hlines' := (buildLines_requestHeaders publicUrl r.headers).symm.trans hlines
  obtain ⟨proto, hproto, hbuilt⟩ := Option.map_eq_some_iff.mp hlines'
  have hurl' : Url.parse client.parseHost (replayUrl port (target r)).toList = some url := hurl
  split_ifs at hparse with hstar
  · rw [hparse] at hurl'
    exact absurd hurl' (by simp)
  · obtain ⟨url', hsome, huserinfo, -⟩ := hparse
    have hsame : url' = url := Option.some.inj (hsome.symm.trans hurl')
    rw [hsame] at huserinfo
    refine ⟨hstar, ?_, ?_, proto, hproto, ?_⟩
    · rw [hq]
      rfl
    · rw [hq]
      rfl
    · have hgrouped : Header.Map.Grouped lines := by
        rw [← hbuilt]
        exact grouped_replayed hr.headers proto
      rw [hq, headers_withCredentials huserinfo hgrouped]
      exact hbuilt.symm

/-- What is built from a public request goes to the exposed port. -/
theorem reaches_of_ok (hlocalhost : client.parseHost "localhost".toList = some localhost)
    (hr : FromHttp r) {publicUrl : String} {q : Outgoing η}
    (h : buildRequest client port (requestData publicUrl r body) = .ok q) :
    reaches localhost port q := by
  obtain ⟨-, url, lines, hurl, -, rfl⟩ := buildRequest_eq_ok_iff.mp h
  have hparse := parse_target hlocalhost port hr
  have hurl' : Url.parse client.parseHost (replayUrl port (target r)).toList = some url := hurl
  split_ifs at hparse with hstar
  · rw [hparse] at hurl'
    exact absurd hurl' (by simp)
  · obtain ⟨url', hsome, -, hauthority⟩ := hparse
    obtain rfl := Option.some.inj (hsome.symm.trans hurl')
    exact hauthority

/-- The CLI builds a request whenever there is a URL for it and the proxy's own line is valid. -/
theorem exists_replayed (hlocalhost : client.parseHost "localhost".toList = some localhost)
    (port : UInt16) (hr : FromHttp r) (hstar : r.path ≠ "*") {publicUrl : String}
    (hproto : (Header.Value.ofString? (forwardedProto publicUrl r.headers)).isSome)
    (body : List UInt8) :
    ∃ q, buildRequest client port (requestData publicUrl r body) = .ok q := by
  have hparse := parse_target hlocalhost port hr
  rw [if_neg hstar] at hparse
  obtain ⟨url, hurl, -⟩ := hparse
  obtain ⟨proto, hproto⟩ := Option.isSome_iff_exists.mp hproto
  have hlines := buildLines_requestHeaders publicUrl r.headers
  rw [hproto, Option.map_some] at hlines
  exact ⟨_, buildRequest_eq_ok_iff.mpr ⟨hr.method, url, _, hurl, hlines, rfl⟩⟩

theorem acceptRequest_eq (proxy : ProxyState) (hbody : toBytes r.body maxBodyBytes = some body) :
    Request.acceptRequest proxy r =
      .readCurrent (HttpRequestData.codec.encode (requestData proxy.publicUrl r body)) := by
  have hencode := Wire.encode_eq (requestData proxy.publicUrl r body)
  rw [Request.acceptRequest, hbody]
  dsimp only
  rw [hencode]
  rfl

/-- The browser's lines among those that arrive are the readable ones. -/
theorem conditions_of_requestArrives
    (hlocalhost : client.parseHost "localhost".toList = some localhost) (hr : FromHttp r)
    (hbody : toBytes r.body maxBodyBytes = some body)
    (h : RequestArrives client port proxy r body) :
    r.path ≠ "*" ∧ body.length + requestOverhead proxy.publicUrl r ≤ maxBodyBytes ∧
      (Header.Value.ofString? (forwardedProto proxy.publicUrl r.headers)).isSome ∧
      ∀ line ∈ r.headers, isKept line = true → line.2.isReadable = true := by
  obtain ⟨frame, request, q, hframe, hrequest, hq, -, -, proto, host, hproto, hheaders, -, hhost⟩ := h
  have hsame := (acceptRequest_eq proxy hbody).symm.trans hframe
  have hmax : Wire.maxFrameBytes = maxBodyBytes := rfl
  rw [Request.readCurrent.injEq] at hsame
  rw [← hsame, receiveRequest_encode, length_requestData, hmax] at hrequest
  split_ifs at hrequest with hlen
  rw [← Option.some.inj hrequest] at hq
  obtain ⟨hstar, -, -, proto', -, hreplayed⟩ := replayed_of_ok hlocalhost hr hq
  refine ⟨hstar, by omega, by rw [hproto]; rfl, ?_⟩
  have hlines := congrArg (List.filter isKept) (hheaders.symm.trans hreplayed)
  rw [List.filter_append, List.filter_append, filter_isKept_own proto hhost,
    filter_isKept_own proto' fun _ => name_of_mem_hostLine, List.append_nil, List.append_nil]
    at hlines
  have hkept : (r.headers.filter isKept).filter isKept = r.headers.filter isKept := by
    simp [List.filter_filter]
  have hread : ((r.headers.filter isKept).filter fun line => line.2.isReadable).filter isKept =
      (r.headers.filter isKept).filter fun line => line.2.isReadable := by
    rw [List.filter_eq_self]
    intro line hline
    exact (List.mem_filter.mp (List.mem_filter.mp hline).1).2
  rw [hkept, hread] at hlines
  intro line hline hk
  exact List.filter_eq_self.mp hlines.symm line (List.mem_filter.mpr ⟨hline, hk⟩)

/-- For every public request whose body is admitted: it arrives unchanged at the application exactly
when its path is no asterisk, its frame leaves room for its body, the proxy's own line is valid, and
every kept line has a readable value. -/
theorem request_arrives_iff (hlocalhost : client.parseHost "localhost".toList = some localhost)
    (port : UInt16) (proxy : ProxyState) (hr : FromHttp r)
    (hbody : toBytes r.body maxBodyBytes = some body) :
    RequestArrives client port proxy r body ↔
      r.path ≠ "*" ∧ body.length + requestOverhead proxy.publicUrl r ≤ maxBodyBytes ∧
        (Header.Value.ofString? (forwardedProto proxy.publicUrl r.headers)).isSome ∧
        ∀ line ∈ r.headers, isKept line = true → line.2.isReadable = true := by
  constructor
  · exact conditions_of_requestArrives hlocalhost hr hbody
  · intro h
    obtain ⟨hstar, hlen, hproto, hreadable⟩ := h
    obtain ⟨q, hq⟩ := exists_replayed hlocalhost port hr hstar hproto body
    obtain ⟨-, hmethod, hqbody, proto, hproto', hheaders⟩ := replayed_of_ok hlocalhost hr hq
    have hall : (r.headers.filter isKept).filter (fun line => line.2.isReadable) =
        r.headers.filter isKept := by
      rw [List.filter_eq_self]
      intro line hline
      obtain ⟨hmem, hkept⟩ := List.mem_filter.mp hline
      exact hreadable line hmem hkept
    rw [hall] at hheaders
    refine ⟨_, _, q, acceptRequest_eq proxy hbody, ?_, hq, hmethod, hqbody, proto, hostLine r.headers,
      hproto', hheaders, length_hostLine_le _, fun _ => name_of_mem_hostLine⟩
    have hmax : Wire.maxFrameBytes = maxBodyBytes := rfl
    rw [receiveRequest_encode, length_requestData, hmax, if_pos (by omega)]

/-- A login with two cookie lines. -/
theorem request_arrives_iff_login :
    let proxy : ProxyState := ⟨id, "https://my-vps.com"⟩
    let cookie : Header.Name := ⟨"cookie", by decide⟩
    let r : PublicRequest := ⟨"POST", "/login", some "next=/", [(⟨"host", by decide⟩,
      .fromStatic "my-vps.com" (by decide)), (cookie, .fromStatic "a=1" (by decide)),
      (cookie, .fromStatic "b=2" (by decide))], some [1, 2]⟩
    RequestArrives plainHosts 3000 proxy r [1, 2] := by
  intro proxy cookie r
  have hlocalhost : plainHosts.parseHost "localhost".toList = some "localhost".toList := by decide
  have hpath : "/login".toList = '/' :: "login".toList := by decide
  have hgrouped : r.headers.Grouped := by
    intro a b c habc hac
    -- The only three lines are the host and the two cookies.
    obtain ⟨ha, hrest⟩ := List.cons.inj (habc.eq_of_length rfl)
    obtain ⟨-, hlast⟩ := List.cons.inj hrest
    rw [ha, (List.cons.inj hlast).1] at hac
    exact absurd hac (by decide)
  have hr : FromHttp r := ⟨by decide, Or.inr (Or.inr ⟨_, hpath⟩), hgrouped⟩
  have hbody : toBytes r.body maxBodyBytes = some [1, 2] := by decide
  exact (request_arrives_iff hlocalhost 3000 proxy hr hbody).mpr (by decide)

/-- A name with an accented letter, in one byte: its line is dropped on the way. -/
theorem accented_line_dropped :
    let proxy : ProxyState := ⟨id, "https://my-vps.com"⟩
    let name : Header.Name := ⟨"x-user", by decide⟩
    let r : PublicRequest :=
      ⟨"GET", "/", none, [(name, ⟨[0x52, 0x65, 0x6E, 0xE9], by decide⟩)], some []⟩
    FromHttp r ∧ toBytes r.body maxBodyBytes = some [] ∧
      ¬ RequestArrives plainHosts 3000 proxy r [] := by
  intro proxy name r
  have hlocalhost : plainHosts.parseHost "localhost".toList = some "localhost".toList := by decide
  have hpath : "/".toList = '/' :: [] := by decide
  have hgrouped : r.headers.Grouped := fun _ _ _ h => absurd h.length_le (by simp [r])
  have hr : FromHttp r := ⟨by decide, Or.inr (Or.inr ⟨_, hpath⟩), hgrouped⟩
  have hbody : toBytes r.body maxBodyBytes = some [] := by decide
  refine ⟨hr, hbody, ?_⟩
  intro harrives
  have hreadable := (conditions_of_requestArrives hlocalhost hr hbody harrives).2.2.2
  exact absurd hreadable (by decide)

end

/-! ### The response -/

/-- The browser is sent the application's answer to a request stream: its status, its body, and
under every name that the proxy does not recompute the same values in the same order. -/
def ResponseArrives (reply : Option (List UInt8)) (proxy : ProxyState) (session : Session)
    (connection : Connection) (auth : AuthMode) (erudaDisabled : Bool) (a : Reply) : Prop :=
  ∃ bytes data response, reply = some bytes ∧
    Request.receive session connection (some bytes) = .received session connection data ∧
    (Request.answered session connection auth erudaDisabled
      (applyEruda proxy erudaDisabled (applyAuthMode auth data))).response = some response ∧
    response.status.code = a.status ∧ response.body = a.body ∧
    ∀ name : Header.Name, strippedResponseHeaders.contains name.text = false →
      response.headers.getAll name = a.headers.getAll name

theorem isPassed_text (name : Header.Name) :
    isPassed name.text = !strippedResponseHeaders.contains name.text := by
  rw [isPassed, toAsciiLowercase, name.toLowercase_text, String.ofList_toList]

/-- The lines that the CLI reads are valid lines for the proxy. -/
theorem passedLines_readableLines (headers : Header.Map) :
    passedLines (readableLines headers) =
      headers.filter fun line => isPassed line.1.text && line.2.isReadable := by
  unfold passedLines readableLines
  induction headers with
  | nil => rfl
  | cons line headers ih =>
    rw [List.filterMap_cons, List.filter_cons, line.2.isReadable_eq]
    cases hread : line.2.toStr with
    | none => simpa using ih
    | some s =>
      have hline := Header.line?_text line.1 hread
      cases hpassed : isPassed line.1.text with
      | false => simpa [hpassed] using ih
      | true => simpa [hpassed, hline] using ih

theorem buildable_readableLines (headers : Header.Map) : Buildable (readableLines headers) := by
  intro line hline _
  obtain ⟨original, -, heq⟩ := List.mem_filterMap.mp hline
  obtain ⟨s, hread, hs⟩ := Option.map_eq_some_iff.mp heq
  rw [← hs, Header.line?_text original.1 hread]
  rfl

/-- A response frame within the limit is received as it was sent. -/
theorem receive_encode {data : HttpResponseData} (hfits : FitsFrame data) (session : Session)
    (connection : Connection) :
    Request.receive session connection (some (HttpResponseData.codec.encode data)) =
      .received session connection data := by
  have hlen := (fitsFrame_iff data).mp hfits
  have hread := (Wire.readToEnd_eq_some_iff _ _ _).mpr ⟨hlen, rfl⟩
  have hdecode := Bincode.deserialize_encode data (HttpResponseData.fits_of_length hlen)
  have hbytes : (some (HttpResponseData.codec.encode data)).bind
      (Wire.readToEnd Wire.maxFrameBytes) = some (HttpResponseData.codec.encode data) := hread
  have hvalue : Wire.decode (HttpResponseData.codec.encode data) = some data := hdecode
  rw [Request.receive, hbytes]
  dsimp only
  rw [hvalue]

/-- The public response to the frame of an answer. -/
theorem buildResponse_toFrame {a : Reply} (hstatus : 100 ≤ a.status ∧ a.status ≤ 999) :
    (buildResponse a.toFrame).status.code = a.status ∧ (buildResponse a.toFrame).body = a.body ∧
      ∀ name : Header.Name, isPassed name.text = true →
        (buildResponse a.toFrame).headers.getAll name =
          (a.headers.getAll name).filter Header.Value.isReadable := by
  have hbuildable : Buildable a.toFrame.headers := buildable_readableLines a.headers
  have hbuild := buildResponse_of_buildable hbuildable
  have hcode : StatusCode.fromU16 a.status = some ⟨a.status, hstatus⟩ := dif_pos hstatus
  refine ⟨?_, by rw [hbuild]; rfl, ?_⟩
  · rw [hbuild]
    change ((StatusCode.fromU16 a.status).getD .badGateway).code = a.status
    rw [hcode]
    rfl
  · intro name hpassed
    rw [getAll_buildResponse hbuildable]
    change (passedLines (readableLines a.headers)).getAll name = _
    rw [passedLines_readableLines]
    exact Header.Map.getAll_filter a.headers (fun name => isPassed name.text)
      Header.Value.isReadable hpassed

section

variable {reply : Option (List UInt8)} {a : Reply} {auth : AuthMode}

/-- The proxy passes the readable values of an answer on. -/
theorem responseArrives_iff_readable (hreply : reply = Wire.encode a.toFrame)
    (hstatus : 100 ≤ a.status ∧ a.status ≤ 999) (hfits : FitsFrame a.toFrame)
    (hauth : auth = .passthrough ∨ auth = .bearer) (proxy : ProxyState) (session : Session)
    (connection : Connection) :
    ResponseArrives reply proxy session connection auth true a ↔
      ∀ line ∈ a.headers, strippedResponseHeaders.contains line.1.text = false →
        line.2.isReadable = true := by
  have hreceive := receive_encode hfits session connection
  have hrewritten : applyEruda proxy true (applyAuthMode auth a.toFrame) = a.toFrame := by
    rcases hauth with hauth | hauth <;> rw [hauth] <;> rfl
  obtain ⟨hcode, hbody, hlines⟩ := buildResponse_toFrame hstatus
  rw [ResponseArrives, hreply, Wire.encode_eq]
  constructor
  · intro h
    obtain ⟨bytes, data, response, hbytes, hdata, hresponse, -, -, hvalues⟩ := h
    rw [← Option.some.inj hbytes] at hdata
    have hframe := hreceive.symm.trans hdata
    rw [Request.received.injEq] at hframe
    rw [← hframe.2.2, hrewritten] at hresponse
    have hbuilt : buildResponse a.toFrame = response := Option.some.inj hresponse
    intro line hline hname
    have hpassed : isPassed line.1.text = true := by rw [isPassed_text, hname]; rfl
    have hsame := (hlines line.1 hpassed).symm.trans (hbuilt ▸ hvalues line.1 hname)
    exact List.filter_eq_self.mp hsame _ (Header.Map.mem_getAll.mpr hline)
  · intro hreadable
    refine ⟨_, a.toFrame, buildResponse a.toFrame, rfl, hreceive, by rw [hrewritten]; rfl, hcode,
      hbody, ?_⟩
    intro name hname
    have hpassed : isPassed name.text = true := by rw [isPassed_text, hname]; rfl
    rw [hlines name hpassed, List.filter_eq_self]
    intro value hvalue
    exact hreadable _ (Header.Map.mem_getAll.mp hvalue) hname

end

section

variable {η ω : Type*} {client : HttpClient η} {exchange : ω → Outgoing η → ω × Option Reply}
  {port : UInt16} {w w' : ω} {frame : List UInt8} {request : HttpRequestData} {q : Outgoing η}
  {a : Reply} {auth : AuthMode}

/-- For every answer of the application that is no redirect and fits a frame, with Eruda disabled
and no cookies to rewrite: it arrives unchanged at the browser exactly when every line that the
proxy does not recompute has a readable value. -/
theorem response_arrives_iff
    (hfollow : ∀ q a q', client.follow q a = some q' → isRedirect a.status = true)
    (hreceived : receiveRequest frame = some request)
    (hq : buildRequest client port request = .ok q) (hanswer : exchange w q = (w', some a))
    (hredirect : isRedirect a.status = false) (hstatus : 100 ≤ a.status ∧ a.status ≤ 999)
    (hfits : FitsFrame a.toFrame) (hauth : auth = .passthrough ∨ auth = .bearer)
    (proxy : ProxyState) (session : Session) (connection : Connection) :
    ResponseArrives (handleStream client exchange port w frame).2 proxy session connection auth true
        a ↔
      ∀ line ∈ a.headers, strippedResponseHeaders.contains line.1.text = false →
        line.2.isReadable = true := by
  have hnone : client.follow q a = none := by
    by_contra hne
    obtain ⟨q', hq'⟩ := Option.ne_none_iff_exists'.mp hne
    rw [hfollow _ _ _ hq'] at hredirect
    exact absurd hredirect (by simp)
  have hreply : (handleStream client exchange port w frame).2 = Wire.encode a.toFrame :=
    congrArg Prod.snd (handleStream_of_answer hreceived hq hanswer hnone)
  exact responseArrives_iff_readable hreply hstatus hfits hauth proxy session connection

end

/-- An application that gives every request the same answer. -/
def constantApp (a : Reply) (_ : Unit) (_ : Outgoing (List Char)) : Reply × Unit := (a, ())

/-- The request that the answers below are given to, as a frame and as it is replayed. -/
def getRoot : HttpRequestData := ⟨"GET", "/", [], []⟩

def replayedRoot : Outgoing (List Char) :=
  ⟨"GET", ⟨none, "localhost".toList, 3000, "/".toList⟩, [], []⟩

theorem receiveRequest_getRoot :
    receiveRequest (HttpRequestData.codec.encode getRoot) = some getRoot := by
  rw [receiveRequest_encode, Wire.length_request]
  exact if_pos (by decide)

theorem buildRequest_getRoot : buildRequest plainHosts 3000 getRoot = .ok replayedRoot := by decide

theorem exchange_constantApp (a : Reply) :
    exchange "localhost".toList 3000 (constantApp a) (fun _ => none) ⟨(), []⟩ replayedRoot =
      (⟨(), [replayedRoot]⟩, some a) :=
  exchange_local (constantApp a) (fun _ => none) ⟨rfl, rfl⟩ ⟨(), []⟩

theorem not_follow_plainHosts (q : Outgoing (List Char)) (a : Reply) :
    plainHosts.follow q a = none := rfl

/-- A page with two cookies. -/
theorem response_arrives_iff_page :
    let setCookie : Header.Name := ⟨"set-cookie", by decide⟩
    let a : Reply := ⟨200, [(setCookie, .fromStatic "a=1" (by decide)),
      (⟨"content-length", by decide⟩, .fromStatic "1" (by decide)),
      (setCookie, .fromStatic "b=2" (by decide))], [7]⟩
    let handled := handleStream plainHosts
      (exchange "localhost".toList 3000 (constantApp a) fun _ => none) 3000 ⟨(), []⟩
      (HttpRequestData.codec.encode getRoot)
    ResponseArrives handled.2 ⟨id, "https://my-vps.com"⟩
      ⟨⟨⟨Vector.replicate 16 1⟩⟩, 3000, "https://my-vps.com"⟩ ⟨0⟩ .bearer true a := by
  intro setCookie a handled
  have hfits : FitsFrame a.toFrame := by
    have hlen := Wire.length_response a.toFrame
    exact (fitsFrame_iff _).mpr (hlen ▸ by decide)
  have hfollow : ∀ q a q', plainHosts.follow q a = some q' → isRedirect a.status = true := by
    intro q a q' h
    rw [not_follow_plainHosts] at h
    exact absurd h (by simp)
  refine (response_arrives_iff hfollow receiveRequest_getRoot buildRequest_getRoot
    (exchange_constantApp a) ?_ ?_ hfits (Or.inr rfl) _ _ _).mpr ?_
  · decide
  · decide
  · decide

/-- A file name with an accented letter, in one byte: its line is dropped on the way. -/
theorem accented_value_dropped :
    let a : Reply := ⟨200, [(⟨"content-disposition", by decide⟩,
      ⟨[0x52, 0x65, 0x6E, 0xE9], by decide⟩)], []⟩
    let handled := handleStream plainHosts
      (exchange "localhost".toList 3000 (constantApp a) fun _ => none) 3000 ⟨(), []⟩
      (HttpRequestData.codec.encode getRoot)
    isRedirect a.status = false ∧ FitsFrame a.toFrame ∧ handled.2 = Wire.encode a.toFrame ∧
      ¬ ResponseArrives handled.2 ⟨id, "https://my-vps.com"⟩
        ⟨⟨⟨Vector.replicate 16 1⟩⟩, 3000, "https://my-vps.com"⟩ ⟨0⟩ .passthrough true a := by
  intro a handled
  have hfits : FitsFrame a.toFrame := by
    have hlen := Wire.length_response a.toFrame
    exact (fitsFrame_iff _).mpr (hlen ▸ by decide)
  have hreply : handled.2 = Wire.encode a.toFrame :=
    congrArg Prod.snd (handleStream_of_answer receiveRequest_getRoot buildRequest_getRoot
      (exchange_constantApp a) (not_follow_plainHosts _ _))
  refine ⟨by decide, hfits, hreply, ?_⟩
  rw [responseArrives_iff_readable hreply (by decide) hfits (Or.inl rfl)]
  decide

end Mobilink.Deployment
