import Mobilink.Deployment.Lossless
import Mobilink.Server.Rewrites

/-! The response to a request about which nothing was lost is the replay's, unless one of the two
frames exceeds the limit. If nobody answers the replay, it is an error page in every mode. -/
namespace Mobilink.Deployment.Traffic
open Mobilink.Core Mobilink.Server Mobilink.Cli

variable {η ω : Type*}

section

variable {proxy : ProxyState} {machines : Machines η ω} {world : ω} {s : State η ω} {r : ℕ}

/-- A request frame over the limit is not replayed at all. Any other is, once, and the answer of that
replay is the response, unless its own frame is over the limit. -/
def Outcome (proxy : ProxyState) (client : HttpClient η) (port : UInt16) (data : HttpRequestData)
    (es : List (Exchange η)) (request : PublicRequest) (x : Response) : Prop :=
  if Wire.maxFrameBytes < (HttpRequestData.codec.encode data).length then
    es = [] ∧ x = corsLayer request (errorPage .unreadableResponse)
  else ∃ own, Replayed client port data es own ∧
    if Wire.maxFrameBytes < (HttpResponseData.codec.encode own).length then
      x = corsLayer request (errorPage (.pipeline (.forwardFailed .tunnelDisconnected)))
    else ∃ auth disabled,
      x = corsLayer request (buildResponse (applyEruda proxy disabled (applyAuthMode auth own)))

theorem receive_nil (session : Session) (c : Connection) :
    Request.receive session c (some []) = .failed .unreadableResponse := by
  have hnothing : (Wire.decode [] : Option HttpResponseData) = none := by decide
  rw [Request.receive]
  simp [Wire.readToEnd, hnothing]

/-- A response frame is received as it was sent, if it keeps to the limit. -/
theorem receive_response (session : Session) (c : Connection) (own : HttpResponseData) :
    Request.receive session c (some (HttpResponseData.codec.encode own)) =
      if (HttpResponseData.codec.encode own).length ≤ Wire.maxFrameBytes then .received session c own
      else Request.forwardFailed .tunnelDisconnected := by
  split_ifs with hlen
  · exact receive_encode ((fitsFrame_iff own).mpr hlen) session c
  · rw [Request.receive, Option.bind_some, Wire.readToEnd, if_neg hlen]

/-- A request that has got its response has read what was on its stream. -/
theorem exists_read_of_response (hs : (system proxy machines world).Reachable s)
    (hintact : Intact (s.at r)) {c : Connection} {x : RequestStream η}
    (hx : s.streams r = some (c, x)) {inner : Response}
    (hinner : (s.server.requests r).response = some inner) :
    ∃ session bytes, Stream.delivered x.response = some bytes ∧
      ((∃ error, Request.receive session c (some bytes) = .failed error ∧ inner = errorPage error) ∨
        ∃ received auth disabled, Request.receive session c (some bytes) = .received session c received ∧
          inner = buildResponse (applyEruda proxy disabled (applyAuthMode auth received))) := by
  have hown := own_of_reachable hs r
  cases hq : s.server.requests r with
  | answered session c' auth disabled data =>
    have hrequest : (s.at r).request = .answered session c' auth disabled data := hq
    obtain ⟨c₁, y, bytes, session₁, received, hy, hbytes, hreceive, hrelays⟩ :=
      hown.exchanged.relayed (by rw [hrequest]; rfl)
    obtain ⟨rfl, rfl⟩ := Prod.mk.inj (Option.some.inj (hy.symm.trans hx))
    rw [hrequest] at hrelays
    rw [hq] at hinner
    refine ⟨session₁, bytes, hbytes, Or.inr ⟨received, auth, disabled, hreceive, ?_⟩⟩
    rw [← Option.some.inj hinner, show data = _ from hrelays]
  | failed error =>
    obtain ⟨session, bytes, hbytes, hreceive⟩ := hintact.unread error c x hq hx
    rw [hq] at hinner
    exact ⟨session, bytes, hbytes, Or.inl ⟨error, hreceive, (Option.some.inj hinner).symm⟩⟩
  | _ =>
    rw [hq] at hinner
    exact absurd hinner (by simp [Request.response])

/-- What the proxy makes of what it reads, against what the CLI has written. -/
theorem outcome_of_read {client : HttpClient η} {port : UInt16} {data : HttpRequestData}
    {es : List (Exchange η)} {request : PublicRequest} {session : Session} {c : Connection}
    {bytes : List UInt8} {inner : Response}
    (hanswer : (receiveRequest (HttpRequestData.codec.encode data) = none ∧ es = [] ∧ bytes = []) ∨
      ∃ data' own, receiveRequest (HttpRequestData.codec.encode data) = some data' ∧
        Replayed client port data' es own ∧ bytes = HttpResponseData.codec.encode own)
    (hread : (∃ error, Request.receive session c (some bytes) = .failed error ∧
        inner = errorPage error) ∨
      ∃ received auth disabled, Request.receive session c (some bytes) = .received session c received ∧
        inner = buildResponse (applyEruda proxy disabled (applyAuthMode auth received))) :
    Outcome proxy client port data es request (corsLayer request inner) := by
  rw [receiveRequest_encode] at hanswer
  rw [Outcome]
  split_ifs with hlong
  · rcases hanswer with ⟨-, hes, rfl⟩ | ⟨_, _, hreceived, -, -⟩
    · refine ⟨hes, ?_⟩
      rcases hread with ⟨error, hreceive, rfl⟩ | ⟨_, _, _, hreceive, -⟩
      · rw [receive_nil] at hreceive
        rw [Request.failed.inj hreceive]
      · exact absurd ((receive_nil session c).symm.trans hreceive) (by simp)
    · rw [if_neg (not_le.mpr hlong)] at hreceived
      exact absurd hreceived (by simp)
  · rw [if_pos (not_lt.mp hlong)] at hanswer
    rcases hanswer with ⟨hreceived, -, -⟩ | ⟨data', own, hreceived, hreplayed, rfl⟩
    · exact absurd hreceived (by simp)
    · obtain rfl := Option.some.inj hreceived
      refine ⟨own, hreplayed, ?_⟩
      rw [receive_response] at hread
      split_ifs with hown
      · rw [if_neg (not_le.mpr hown)] at hread
        rcases hread with ⟨error, hreceive, rfl⟩ | ⟨_, _, _, hreceive, -⟩
        · rw [Request.failed.inj hreceive]
        · exact absurd hreceive (by simp [Request.forwardFailed])
      · rw [if_pos (not_lt.mp hown)] at hread
        rcases hread with ⟨_, hreceive, -⟩ | ⟨received, auth, disabled, hreceive, rfl⟩
        · exact absurd hreceive (by simp)
        · obtain ⟨-, -, rfl⟩ := Request.received.inj hreceive
          exact ⟨auth, disabled, rfl⟩

/-- If nothing was lost about a request that was forwarded to a CLI, its response is decided by the
two frames. -/
theorem outcome_of_lossless {events : List Event}
    (hrun : (system proxy machines world).run (system proxy machines world).init events = some s)
    (hlossless : Lossless r events) {x : Response} (hx : s.responses r = some x) {c : Connection}
    {stream : RequestStream η} (hstream : s.streams r = some (c, stream))
    (hcli : s.server.clis c ≠ none) :
    ∃ request id hello data, s.arrived r = some request ∧ request.method ≠ "OPTIONS" ∧
      Serves s.server id c hello ∧ Forwards proxy s r data ∧
      Outcome proxy machines.client hello.localPort data (s.sent r) request x := by
  have hs : (system proxy machines world).Reachable s := ⟨events, hrun⟩
  have hintact := intact_of_run hrun hlossless
  have hown := own_of_reachable hs r
  obtain ⟨request, harrived, hcases⟩ := hown.arrived.response x hx
  have hmethod : request.method ≠ "OPTIONS" := by
    intro hm
    have hidle := (hown.arrived.options request harrived hm).1
    exact absurd hidle (hown.arrived.stream (by simp [State.at, hstream]))
  obtain ⟨inner, hinner, rfl⟩ : ∃ inner, (s.server.requests r).response = some inner ∧
      x = corsLayer request inner := by
    rcases hcases with ⟨hm, -⟩ | hrest
    · exact absurd hm hmethod
    · exact hrest
  obtain ⟨session, bytes, hbytes, hread⟩ := exists_read_of_response hs hintact hstream hinner
  -- A CLI that is not in `serve` yet has sent nothing back.
  obtain ⟨port, hport⟩ : ∃ port, servedBy s.server c = some port := by
    by_contra hnone
    have hport : servedBy s.server c = none := by
      by_contra hne
      exact hnone (Option.ne_none_iff_exists'.mp hne)
    have hresponse := (hown.exchanged.unserved c stream hstream hport).2.2 hcli
    rw [hresponse] at hbytes
    exact absurd hbytes (by simp [Stream.delivered])
  obtain ⟨id, hello, ha⟩ := hown.piped.announced c stream hstream
  obtain ⟨hserves, rfl⟩ := serves_of_servedBy (reachable_server hs) ha hport
  refine ⟨request, id, hello, ?_⟩
  obtain ⟨sent, hsent, hanswer⟩ := answer_of_served
    (hown.exchanged.served c stream _ hstream hport) (hintact.kept c stream hstream) hbytes
  obtain ⟨data, hforwards, rfl⟩ := hown.written hstream hsent
  exact ⟨data, harrived, hmethod, hserves, hforwards, outcome_of_read hanswer hread⟩

/-! ### Nobody answers the replay -/

theorem applyAuthMode_errorFrame (auth : AuthMode) (port : UInt16) (text : ErrorText) :
    applyAuthMode auth (errorFrame port text) = errorFrame port text := by
  have hline : eqIgnoreAsciiCase "Content-Type" "set-cookie" = false := by decide
  unfold applyAuthMode rewriteCookiesCrossSite errorFrame
  simp [hline]

/-- The page is plain text, so the console stays out of it. -/
theorem transform_errorFrame (port : UInt16) (text : ErrorText) :
    ErudaInjector.transform (errorFrame port text) = errorFrame port text := by
  apply ErudaInjector.transform_of_not_injects
  have hplain : ErudaInjector.isHtml (errorFrame port text) = false := by
    unfold ErudaInjector.isHtml
    have hname : eqIgnoreAsciiCase "Content-Type" "content-type" = true := by decide
    have hct : (errorFrame port text).header "content-type" = some "text/plain; charset=utf-8" := by
      simp [errorFrame, HttpResponseData.header, hname]
    rw [hct]
    decide
  rw [ErudaInjector.injects, hplain]
  rfl

theorem buildResponse_errorFrame (port : UInt16) (text : ErrorText) :
    (buildResponse (errorFrame port text)).status = .badGateway ∧
      (buildResponse (errorFrame port text)).body = (errorFrame port text).body := by
  have hbuildable : Buildable (errorFrame port text).headers := by
    intro line hline _
    obtain rfl : line = ("Content-Type", "text/plain; charset=utf-8") := by
      simpa [errorFrame] using hline
    decide
  have hstatus : (StatusCode.fromU16 502).getD .badGateway = .badGateway := by decide
  rw [buildResponse_of_buildable hbuildable]
  exact ⟨hstatus, rfl⟩

/-- If nobody answers, the page of the CLI is the response, whatever the session's options ask for. -/
theorem Outcome.unreachable {client : HttpClient η} {port : UInt16} {data : HttpRequestData}
    {es : List (Exchange η)} {request : PublicRequest} {x : Response}
    (h : Outcome proxy client port data es request x)
    (htransform : proxy.transform = ErudaInjector.transform) (hmethod : request.method ≠ "OPTIONS")
    (hsent : es ≠ []) (hes : ∀ e ∈ es, e.2 = none) :
    x.status = .badGateway ∧
      (FitsFrame (errorFrame port (client.describe (.send .transport))) →
        x = corsLayer request (buildResponse (errorFrame port (client.describe (.send .transport))))) := by
  have hstatus : ∀ inner, (corsLayer request inner).status = inner.status := by
    intro inner
    rw [corsLayer, if_neg hmethod]
  rw [Outcome] at h
  split_ifs at h with hlong
  · exact absurd h.1 hsent
  · obtain ⟨own, hreplayed, hx⟩ := h
    obtain rfl : own = errorFrame port (client.describe (.send .transport)) := by
      cases hreplayed with
      | refused _ => exact absurd rfl hsent
      | sent _ hexchanged => rw [hexchanged.eq_transport_of_unanswered hes, relayed]
    split_ifs at hx with hown
    · subst hx
      refine ⟨by rw [hstatus]; rfl, fun hfits => ?_⟩
      exact absurd ((fitsFrame_iff _).mp hfits) (not_le.mpr hown)
    · obtain ⟨auth, disabled, rfl⟩ := hx
      have hpage : applyEruda proxy disabled (applyAuthMode auth
          (errorFrame port (client.describe (.send .transport)))) =
          errorFrame port (client.describe (.send .transport)) := by
        rw [applyAuthMode_errorFrame, applyEruda, htransform, transform_errorFrame, ite_self]
      rw [hpage]
      exact ⟨(hstatus _).trans (buildResponse_errorFrame port _).1, fun _ => rfl⟩

/-- If nothing was lost about a request that was forwarded to a CLI, its response is decided by the
two frames. If nobody has answered the replay, it is a `502`, and the CLI's own page wherever that
fits a frame, with the cookies rewritten or not and with the console or without. -/
theorem response_of_lossless {events : List Event}
    (hrun : (system proxy machines world).run (system proxy machines world).init events = some s)
    (hlossless : Lossless r events) {x : Response} (hx : s.responses r = some x) {c : Connection}
    {stream : RequestStream η} (hstream : s.streams r = some (c, stream))
    (hcli : s.server.clis c ≠ none) :
    ∃ request id hello data, s.arrived r = some request ∧ Serves s.server id c hello ∧
      Forwards proxy s r data ∧
      Outcome proxy machines.client hello.localPort data (s.sent r) request x ∧
      (proxy.transform = ErudaInjector.transform → s.sent r ≠ [] → (∀ e ∈ s.sent r, e.2 = none) →
        x.status = .badGateway ∧
          let page := errorFrame hello.localPort (machines.client.describe (.send .transport))
          FitsFrame page → x = corsLayer request (buildResponse page)) := by
  obtain ⟨request, id, hello, data, harrived, hmethod, hserves, hforwards, houtcome⟩ :=
    outcome_of_lossless hrun hlossless hx hstream hcli
  exact ⟨request, id, hello, data, harrived, hserves, hforwards, houtcome,
    fun htransform hsent hes => houtcome.unreachable htransform hmethod hsent hes⟩

/-- Nothing listens on the port of a CLI whose session has the cookies rewritten and the console on. -/
theorem response_of_lossless_unreachable :
    let c : Connection := ⟨0⟩
    let owner : SessionId := ⟨⟨Vector.replicate 16 1⟩⟩
    let order : TunnelMap.Order := (∅ : TunnelMap.Order).insert owner ⟨c, false, .cookie⟩
    let machines : Machines (List Char) Unit := ⟨plainHosts, fun _ w _ => (w, none)⟩
    let proxy : ProxyState := ⟨ErudaInjector.transform, "https://my-vps.com"⟩
    let traffic := system proxy machines ()
    let events := (handshake c ⟨3000, false, .cookie⟩ owner).map Event.server ++
      replay 0 ⟨"GET", "/", none, [], some []⟩ ++ reply 0 (errorFrame 3000 ⟨"error", []⟩) order
    ∃ s x request id hello data, traffic.run traffic.init events = some s ∧
      s.responses 0 = some x ∧ x.status = .badGateway ∧ Serves s.server id c hello ∧
      Outcome proxy plainHosts hello.localPort data (s.sent 0) request x := by
  intro c owner order machines proxy traffic events
  have hend : (traffic.run traffic.init events).map (fun s => ((s.responses 0).isSome,
      (s.streams 0).map Prod.fst, (s.server.clis c).isSome, (s.sent 0).map Prod.snd)) =
        some (true, some c, true, [none]) := by
    decide +kernel
  obtain ⟨s, hs, hfacts⟩ := Option.map_eq_some_iff.mp hend
  simp only [Prod.mk.injEq] at hfacts
  obtain ⟨hresponse, hstream, hcli, hsent⟩ := hfacts
  obtain ⟨x, hx⟩ := Option.isSome_iff_exists.mp hresponse
  obtain ⟨⟨c', stream⟩, hstream, rfl⟩ := Option.map_eq_some_iff.mp hstream
  have hlossless : Lossless 0 events := lossless_of_all (by decide)
  obtain ⟨request, id, hello, data, -, hserves, -, houtcome, hunreachable⟩ :=
    response_of_lossless hs hlossless hx hstream (Option.isSome_iff_ne_none.mp hcli)
  have hnonempty : s.sent 0 ≠ [] := fun hnil => absurd (hnil ▸ hsent) (by simp)
  have hunanswered : ∀ e ∈ s.sent 0, e.2 = none := by
    intro e he
    have hmem : e.2 ∈ (s.sent 0).map Prod.snd := List.mem_map_of_mem he
    rw [hsent] at hmem
    exact List.mem_singleton.mp hmem
  have hstatus := (hunreachable rfl hnonempty hunanswered).1
  exact ⟨s, x, request, id, hello, data, hs, hx, hstatus, hserves, houtcome⟩

end

end Mobilink.Deployment.Traffic
