import Mobilink.Deployment.Exchanges
import Mobilink.Deployment.Transparency

/-! What leaves the router, and what reaches a local server, over whole runs of the deployment. -/
namespace Mobilink.Deployment.Traffic
open Mobilink.Core Mobilink.Server Mobilink.Cli

variable {η ω : Type*}

/-! ### Requests without a response of the tunnel -/

/-- The errors of a request for which no stream was opened. -/
def isRefusal : ProxyError → Bool
  | .bodyTooLarge | .pipeline .sessionNotFound | .pipeline (.forwardFailed .tunnelNotFound) => true
  | _ => false

/-- The errors that may also mean that the response was lost on its way. -/
def isLoss : ProxyError → Bool
  | .pipeline (.forwardFailed .tunnelDisconnected) | .unreadableResponse => true
  | _ => false

/-- How a step can end a request, as long as the mutex of the tunnel map is not poisoned. -/
theorem failed_of_step {proxy : ProxyState} {st : Stores} {q q' : Request} {e : RequestEvent}
    (ht : st.tunnels.inner.poisoned = false) (h : q.step proxy st e = some q')
    (hend : q'.isEnded = true) :
    ∃ error, q' = .failed error ∧
      ((isRefusal error = true ∧ streamOn q = none ∧ q.isEnded = false) ∨ isLoss error = true) := by
  have hloss : ∀ {error : ProxyError}, isLoss error = true → some (Request.failed error) = some q' →
      ∃ error, q' = .failed error ∧
        ((isRefusal error = true ∧ streamOn q = none ∧ q.isEnded = false) ∨
          isLoss error = true) :=
    fun hl heq => ⟨_, (Option.some.inj heq).symm, Or.inr hl⟩
  have hlives : ∀ {q₁ : Request}, q₁.isEnded = false → some q₁ = some q' → False := by
    intro q₁ hlive heq
    rw [← Option.some.inj heq, hlive] at hend
    exact absurd hend (by simp)
  unfold Request.step at h
  split at h
  · rename_i request
    unfold Request.acceptRequest at h
    cases hbody : toBytes request.body maxBodyBytes with
    | none =>
      rw [hbody] at h
      exact ⟨_, (Option.some.inj h).symm, Or.inl ⟨rfl, rfl, rfl⟩⟩
    | some body =>
      rw [hbody] at h
      dsimp only at h
      rw [Wire.encode_eq] at h
      exact (hlives rfl h).elim
  · split at h
    · exact (hlives rfl h).elim
    · exact ⟨_, (Option.some.inj h).symm, Or.inl ⟨rfl, rfl, rfl⟩⟩
  · split at h
    · exact (hlives rfl h).elim
    · exact ⟨_, (Option.some.inj h).symm, Or.inl ⟨rfl, rfl, rfl⟩⟩
  · rw [TunnelMap.connection_eq ht] at h
    split at h
    · rename_i hnone
      exact absurd hnone (by simp)
    · exact ⟨_, (Option.some.inj h).symm, Or.inl ⟨rfl, rfl, rfl⟩⟩
    · exact (hlives rfl h).elim
  -- The three writes to the tunnel.
  iterate 3
    · split_ifs at h
      · exact (hlives rfl h).elim
      · exact hloss rfl h
  · unfold Request.receive at h
    split at h
    · exact hloss rfl h
    · split at h
      · exact hloss rfl h
      · exact (hlives rfl h).elim
  · split_ifs at h
    rw [TunnelMap.authMode_eq ht] at h
    exact (hlives rfl h).elim
  · split_ifs at h
    rw [TunnelMap.erudaDisabled_eq ht] at h
    exact (hlives rfl h).elim
  · exact absurd h (by simp)

/-- A stream is on the connection that the request was forwarded to, from its opening on. -/
theorem Advance.stream_cases {proxy : ProxyState}
    {stream stream' : Option (Connection × RequestStream η)} {q q' : Request} {e : RequestEvent}
    (h : Advance proxy stream q e q' stream') {c : Connection} {x : RequestStream η}
    (hx : stream' = some (c, x)) :
    (∃ frame session, q = .forwarding .openBi frame session c) ∨ ∃ x₀, stream = some (c, x₀) := by
  cases h with
  | @opens frame session c' =>
    rw [← (Prod.mk.inj (Option.some.inj hx)).1]
    exact Or.inl ⟨frame, session, rfl⟩
  | writes =>
    obtain ⟨⟨c₀, x₀⟩, hx₀, heq⟩ := Option.map_eq_some_iff.mp hx
    exact Or.inr ⟨x₀, by rw [hx₀, ← (Prod.mk.inj heq).1]⟩
  | finishes =>
    obtain ⟨⟨c₀, x₀⟩, hx₀, heq⟩ := Option.map_eq_some_iff.mp hx
    exact Or.inr ⟨x₀, by rw [hx₀, ← (Prod.mk.inj heq).1]⟩
  | ends _ => exact Or.inr ⟨x, hx⟩
  | resolves _ _ _ _ => exact Or.inr ⟨x, hx⟩
  | reads _ _ => exact Or.inr ⟨x, hx⟩
  | rewrites _ _ _ _ _ _ => exact Or.inr ⟨x, hx⟩

theorem Advance.stream_of_isEnded {proxy : ProxyState}
    {stream stream' : Option (Connection × RequestStream η)} {q q' : Request} {e : RequestEvent}
    (h : Advance proxy stream q e q' stream') (hend : q'.isEnded = true) : stream' = stream := by
  cases h with
  | ends _ => rfl
  | resolves _ hframe _ _ =>
    exact absurd ((isEnded_of_frameOf hframe).symm.trans hend) (by simp)
  | opens => exact absurd hend (by simp [Request.isEnded])
  | writes => exact absurd hend (by simp [Request.isEnded])
  | finishes => exact absurd hend (by simp [Request.isEnded])
  | reads _ _ => exact absurd hend (by simp [Request.isEnded])
  | rewrites _ _ _ _ _ _ => rfl

/-- A request that is refused has left no stream behind. -/
def Ends (l : Local η) : Prop :=
  l.request.isEnded = true → ∃ error, l.request = .failed error ∧
    ((isRefusal error = true ∧ l.stream = none) ∨ isLoss error = true)

section

variable {proxy : ProxyState} {machines : Machines η ω} {world : ω} {server : Deployment.State}
  {l l' : Local η} {s : State η ω} {r : ℕ} {ev : Event}

theorem Ends.localMove (h : Ends l) (ht : server.stores.tunnels.inner.poisoned = false)
    (harrived : Arrived proxy l) (hpiped : Piped server l)
    (hm : LocalMove proxy machines server r l ev l') : Ends l' := by
  cases hm with
  | preflight _ _ => exact h
  | start hnone _ hstep =>
    intro hend
    obtain ⟨error, hq, hcases⟩ := failed_of_step ht hstep hend
    refine ⟨error, hq, hcases.imp_left ?_⟩
    exact fun hrefusal => ⟨hrefusal.1, (harrived.fresh hnone).2.1⟩
  | request hpermits hstep =>
    intro hend
    obtain ⟨error, hq, hcases⟩ := failed_of_step ht hstep hend
    refine ⟨error, hq, hcases.imp_left ?_⟩
    rintro ⟨hrefusal, hopen, hlive⟩
    refine ⟨hrefusal, ?_⟩
    exact ((advance_of_step hpermits hstep).stream_of_isEnded hend).trans
      (hpiped.unopened hopen hlive)
  | @serve c stream stream' port e w w' new hs _ _ =>
    intro hend
    obtain ⟨error, hq, hcases⟩ := h hend
    refine ⟨error, hq, hcases.imp_left ?_⟩
    exact fun hrefusal => absurd (hs.symm.trans hrefusal.2) (by simp)
  | stranger _ hs _ _ =>
    intro hend
    obtain ⟨error, hq, hcases⟩ := h hend
    refine ⟨error, hq, hcases.imp_left ?_⟩
    exact fun hrefusal => absurd (hs.symm.trans hrefusal.2) (by simp)
  | respond _ _ => exact h

theorem ends_of_reachable (hs : (system proxy machines world).Reachable s) (r : ℕ) :
    Ends (s.at r) := by
  have hall : ∀ r, Ends (s.at r) := by
    apply hs.invariant
    · intro r hend
      exact absurd hend (by simp [system, init, State.at, Deployment.init, Request.isEnded])
    · intro s ev s' hreach h hstep r
      have hcons := consistent_of_reachable (reachable_server hreach)
      have hown := own_of_reachable hreach r
      rcases localMove_of_step hstep r with hsame | hm
      · rw [hsame]
        exact h r
      · exact (h r).localMove hcons.tunnels hown.arrived hown.piped hm
  exact hall r

/-! ### What a stream and a response carry -/

/-- `data` is the frame that the proxy makes of the request `r`. -/
def Forwards (proxy : ProxyState) (s : State η ω) (r : ℕ) (data : HttpRequestData) : Prop :=
  ∃ request body, s.arrived r = some request ∧ request.method ≠ "OPTIONS" ∧
    toBytes request.body maxBodyBytes = some body ∧ data = requestData proxy.publicUrl request body

/-- The CLI behind the connection on which the session `id` was opened is in `serve`. -/
def Serves (server : Deployment.State) (id : SessionId) (c : Connection) (hello : ClientMessage) :
    Prop :=
  Announced server id c hello ∧ ∃ tunnel, server.clis c = some (.established hello tunnel)

theorem frame_of_acceptRequest {request : PublicRequest} {frame : List UInt8}
    (h : Request.acceptRequest proxy request = .readCurrent frame) :
    ∃ body, toBytes request.body maxBodyBytes = some body ∧
      frame = HttpRequestData.codec.encode (requestData proxy.publicUrl request body) := by
  cases hbody : toBytes request.body maxBodyBytes with
  | none =>
    rw [Request.acceptRequest, hbody] at h
    exact absurd h (by simp)
  | some body =>
    rw [acceptRequest_eq proxy hbody, Request.readCurrent.injEq] at h
    exact ⟨body, rfl, h.symm⟩

theorem decode_of_receive {session : Session} {c : Connection} {bytes : List UInt8}
    {data : HttpResponseData}
    (h : Request.receive session c (some bytes) = .received session c data) :
    (Wire.readToEnd Wire.maxFrameBytes bytes).bind Wire.decode = some data := by
  rw [Request.receive, Option.bind_some] at h
  cases hread : Wire.readToEnd Wire.maxFrameBytes bytes with
  | none =>
    rw [hread] at h
    exact absurd h (by simp [Request.forwardFailed])
  | some read =>
    rw [hread] at h
    dsimp only at h
    rw [Option.bind_some]
    cases hdecode : (Wire.decode read : Option HttpResponseData) with
    | none =>
      rw [hdecode] at h
      exact absurd h (by simp)
    | some value =>
      rw [hdecode] at h
      simpa using h

/-- What stands on a stream is the frame that the proxy made of its request. -/
theorem Own.written (h : Own proxy machines.client s.server (s.at r)) {c : Connection}
    {stream : RequestStream η} {sent : Stream} (hs : s.streams r = some (c, stream))
    (hsent : stream.request = some sent) :
    ∃ data, Forwards proxy s r data ∧ sent.bytes = HttpRequestData.codec.encode data := by
  obtain ⟨request, harrived, haccept⟩ := h.arrived.written c stream _ hs hsent
  obtain ⟨request', harrived', hmethod⟩ := h.arrived.begun (h.arrived.stream (by simp [State.at, hs]))
  have hsame : request = request' := Option.some.inj (harrived.symm.trans harrived')
  rw [← hsame] at hmethod
  obtain ⟨body, hbody, hframe⟩ := frame_of_acceptRequest haccept
  exact ⟨_, ⟨request, body, harrived, hmethod, hbody, rfl⟩, hframe⟩

/-- A CLI reads off a stream what the proxy made of its request. -/
theorem Own.forwards (h : Own proxy machines.client s.server (s.at r)) {c : Connection}
    {stream : RequestStream η} {sent : List UInt8} {data : HttpRequestData}
    (hs : s.streams r = some (c, stream)) (hsent : stream.request = some ⟨sent, true⟩)
    (hdata : receiveRequest sent = some data) : Forwards proxy s r data := by
  obtain ⟨forwarded, hforwards, hframe⟩ := h.written hs hsent
  have hreceived := receiveRequest_encode forwarded
  rw [← hframe, hdata] at hreceived
  split_ifs at hreceived
  exact Option.some.inj hreceived ▸ hforwards

/-- The port of a CLI is the one that its `Hello` announced. -/
theorem serves_of_servedBy {server : Deployment.State} (hs : (Deployment.system proxy).Reachable server)
    {id : SessionId} {c : Connection} {hello : ClientMessage} {port : UInt16}
    (ha : Announced server id c hello) (hport : servedBy server c = some port) :
    Serves server id c hello ∧ port = hello.localPort := by
  have hl := linked_of_reachable hs
  obtain ⟨cli, hcli, hserving⟩ := Option.bind_eq_some_iff.mp hport
  obtain ⟨p, created, ho, hid⟩ := ha
  have hsame := hl.helloOfCli hcli (hl.hello c _ hello ho rfl)
  cases cli with
  | established own tunnel =>
    have hown : own = hello := hsame
    rw [hown] at hcli hserving
    exact ⟨⟨⟨p, created, ho, hid⟩, tunnel, hcli⟩, (Option.some.inj hserving).symm⟩
  | _ => exact absurd hserving (by simp [servingPort])

/-! ### Whose machine an exchange was made on -/

theorem Machines.Perform.append {w w' w'' : ω} {log new : List (Entry η)}
    (h : machines.Perform w log w') (hnew : machines.Perform w' new w'') :
    machines.Perform w (log ++ new) w'' := by
  induction log generalizing w with
  | nil =>
    obtain rfl : w = w' := h
    exact hnew
  | cons entry rest ih =>
    obtain ⟨hanswer, hrest⟩ := h
    exact ⟨hanswer, ih hrest⟩

/-- A stream has its exchanges from the machine that it is given. -/
theorem perform_of_move {c : Connection} {port : UInt16} {w w' : ω} {x x' : RequestStream η}
    {e : StreamEvent} {new : List (Exchange η)} (r : ℕ)
    (h : RequestStream.Move machines.client (machines.exchange c) port w x e w' x' new) :
    machines.Perform w (new.map fun exchange => ⟨r, c, exchange⟩) w' := by
  cases h with
  | exchanges _ => exact ⟨rfl, rfl⟩
  | _ => rfl

/-- Only what is logged changes the world. -/
theorem log_of_step {s' : State η ω} (h : step proxy machines s ev = some s') :
    ∃ new, s'.log = s.log ++ new ∧ machines.Perform s.world new s'.world := by
  have hsame : ∀ {t : State η ω}, some t = some s' → t.log = s.log → t.world = s.world →
      ∃ new, s'.log = s.log ++ new ∧ machines.Perform s.world new s'.world := by
    intro t heq hlog hworld
    rw [← Option.some.inj heq, hlog, hworld]
    exact ⟨[], (List.append_nil _).symm, rfl⟩
  cases ev with
  | arrive r' request =>
    simp only [step] at h
    split_ifs at h
    · exact hsame h rfl rfl
    · obtain ⟨server, -, h⟩ := Option.map_eq_some_iff.mp h
      exact hsame (congrArg some h) rfl rfl
  | server e =>
    cases e with
    | request r' e =>
      simp only [step] at h
      split_ifs at h
      obtain ⟨server, -, h⟩ := Option.map_eq_some_iff.mp h
      exact hsame (congrArg some h) rfl rfl
    | _ =>
      obtain ⟨server, -, h⟩ := Option.map_eq_some_iff.mp h
      exact hsame (congrArg some h) rfl rfl
  | serve r' e =>
    obtain ⟨x, -, h⟩ := Option.bind_eq_some_iff.mp h
    obtain ⟨port, -, h⟩ := Option.bind_eq_some_iff.mp h
    split_ifs at h
    obtain ⟨⟨w', x', new⟩, hstep, rfl⟩ := Option.map_eq_some_iff.mp h
    exact ⟨_, rfl, perform_of_move r' (RequestStream.move_of_step hstep)⟩
  | stranger r' bytes =>
    obtain ⟨x, -, h⟩ := Option.bind_eq_some_iff.mp h
    split_ifs at h
    exact hsame h rfl rfl
  | respond r' =>
    obtain ⟨request, -, h⟩ := Option.bind_eq_some_iff.mp h
    obtain ⟨response, -, h⟩ := Option.bind_eq_some_iff.mp h
    split_ifs at h
    exact hsame h rfl rfl

/-- The log accounts for every answer and for the state of the world. -/
theorem perform_of_reachable (hs : (system proxy machines world).Reachable s) :
    machines.Perform world s.log s.world := by
  apply hs.invariant
  · exact rfl
  · intro s ev s' _ h hstep
    obtain ⟨new, hlog, hnew⟩ := log_of_step hstep
    exact hlog ▸ h.append hnew

/-- Every exchange for `r` was made on the machine behind the connection `c`. -/
def MadeOn (s : State η ω) (r : ℕ) (c : Connection) : Prop :=
  ∀ entry ∈ s.log, entry.request = r → entry.machine = c

theorem Own.madeOn (h : Own proxy machines.client s.server (s.at r)) {c : Connection}
    {stream : RequestStream η} (hs : s.streams r = some (c, stream)) : MadeOn s r c := by
  intro entry hentry hr
  have hmem : entry.machine ∈ s.machines r := by
    refine List.mem_map_of_mem (List.mem_filter.mpr ⟨hentry, ?_⟩)
    exact decide_eq_true hr
  obtain ⟨x, hx⟩ := h.exchanged.placed entry.machine hmem
  exact (Prod.mk.inj (Option.some.inj (hx.symm.trans hs))).1

/-! ### Where a response comes from -/

def errorPage (error : ProxyError) : Response :=
  textResponse ((StatusCode.fromU16 error.textResponse.status).getD .badGateway)
    error.textResponse.message

/-- Where the response to the request `r` comes from: the router, the proxy, the one replay of the
request by the CLI that it was forwarded to, on the machine of that CLI, or what a peer that is no CLI
has written on the stream of the request. -/
inductive Origin (proxy : ProxyState) (client : HttpClient η) (s : State η ω) (r : ℕ)
    (request : PublicRequest) : Response → Prop where
  | router (hm : request.method = "OPTIONS") (hstream : s.streams r = none) (hsent : s.sent r = []) :
    Origin proxy client s r request (preflight request)
  | refused {error : ProxyError} (hm : request.method ≠ "OPTIONS")
      (hq : s.server.requests r = .failed error) (h : isRefusal error = true)
      (hstream : s.streams r = none) (hsent : s.sent r = []) :
    Origin proxy client s r request (corsLayer request (errorPage error))
  | lost {error : ProxyError} (hm : request.method ≠ "OPTIONS")
      (hq : s.server.requests r = .failed error) (h : isLoss error = true) :
    Origin proxy client s r request (corsLayer request (errorPage error))
  | replayed {session : Session} {c : Connection} {stream : RequestStream η} {hello : ClientMessage}
      {data : HttpRequestData} {own : HttpResponseData} {auth : AuthMode} {erudaDisabled : Bool}
      (hm : request.method ≠ "OPTIONS")
      (hq : s.server.requests r = .answered session c auth erudaDisabled
        (applyEruda proxy erudaDisabled (applyAuthMode auth own)))
      (hstream : s.streams r = some (c, stream)) (hserves : Serves s.server session.id c hello)
      (hmade : MadeOn s r c) (hdata : Forwards proxy s r data)
      (hown : Replayed client hello.localPort data (s.sent r) own) :
    Origin proxy client s r request (corsLayer request
      (buildResponse (applyEruda proxy erudaDisabled (applyAuthMode auth own))))
  | stranger {session : Session} {c : Connection} {stream : RequestStream η} {bytes : List UInt8}
      {data : HttpResponseData} {auth : AuthMode} {erudaDisabled : Bool}
      (hm : request.method ≠ "OPTIONS")
      (hq : s.server.requests r = .answered session c auth erudaDisabled
        (applyEruda proxy erudaDisabled (applyAuthMode auth data)))
      (hstream : s.streams r = some (c, stream)) (hcli : s.server.clis c = none)
      (hbytes : Stream.delivered stream.response = some bytes)
      (hdata : (Wire.readToEnd Wire.maxFrameBytes bytes).bind Wire.decode = some data)
      (hsent : s.sent r = []) :
    Origin proxy client s r request (corsLayer request
      (buildResponse (applyEruda proxy erudaDisabled (applyAuthMode auth data))))

/-- An answered request has its answer from its stream. That of a CLI has been replayed by it, once,
and the answer is that replay's. -/
theorem replayed_of_answered (hs : (system proxy machines world).Reachable s) {session : Session}
    {c : Connection} {auth : AuthMode} {disabled : Bool} {data : HttpResponseData}
    (hq : s.server.requests r = .answered session c auth disabled data) :
    ∃ stream bytes received, s.streams r = some (c, stream) ∧
      Stream.delivered stream.response = some bytes ∧
      (Wire.readToEnd Wire.maxFrameBytes bytes).bind Wire.decode = some received ∧
      data = applyEruda proxy disabled (applyAuthMode auth received) ∧
      if s.server.clis c = none then s.sent r = []
      else ∃ hello request, Serves s.server session.id c hello ∧ Forwards proxy s r request ∧
        Replayed machines.client hello.localPort request (s.sent r) received := by
  have hown := own_of_reachable hs r
  have hserver := reachable_server hs
  have hrequest : (s.at r).request = .answered session c auth disabled data := hq
  obtain ⟨c', stream, bytes, session', received, hstream, hbytes, hdata, hrelays⟩ :=
    hown.exchanged.relayed (by rw [hrequest]; rfl)
  obtain ⟨x, hx⟩ := hown.piped.opened c (by rw [hrequest]; rfl)
  have hc : c' = c := (Prod.mk.inj (Option.some.inj (hstream.symm.trans hx))).1
  rw [hc] at hstream hdata
  rw [hrequest] at hrelays
  refine ⟨stream, bytes, received, hstream, hbytes, decode_of_receive hdata, hrelays, ?_⟩
  split_ifs with hcli
  · have hnone : servedBy s.server c = none := by rw [servedBy, hcli, Option.bind_none]
    exact (hown.exchanged.unserved c stream hstream hnone).2.1
  · cases hport : servedBy s.server c with
    | none =>
      -- A CLI that is not in `serve` yet has sent nothing back.
      have hresponse := (hown.exchanged.unserved c stream hstream hport).2.2 hcli
      rw [hresponse] at hbytes
      exact absurd hbytes (by simp [Stream.delivered])
    | some port =>
      obtain ⟨id, hello, howner, ha⟩ :=
        (routed_of_reachable hserver).connection r c (by rw [hq]; rfl)
      have hid : session.id = id := by
        rw [hq] at howner
        exact Option.some.inj howner
      obtain ⟨hserves, hlocal⟩ := serves_of_servedBy hserver (hid ▸ ha) hport
      rw [hlocal] at hport
      rcases (hown.exchanged.served c stream _ hstream hport).delivered hbytes with
        hempty | ⟨sent, request, response, hsent, hrequest, hreplayed, hbytes'⟩
      · have hnothing : ((Wire.readToEnd Wire.maxFrameBytes []).bind Wire.decode :
            Option HttpResponseData) = none := by decide
        rw [hempty] at hdata
        exact absurd (hnothing.symm.trans (decode_of_receive hdata)) (by simp)
      · rw [hbytes'] at hdata
        have hvalue := Wire.receive_encode (Wire.encode_eq response)
          HttpResponseData.fits_of_length (decode_of_receive hdata)
        exact ⟨hello, request, hserves, hown.forwards hstream hsent hrequest, hvalue ▸ hreplayed⟩

/-- Every response that leaves the router, in every run: it is the router's own, an error page of
the proxy, or the answer to the one replay of this very request by the CLI that opened the session
it was forwarded to, made on that CLI's machine. A request that the proxy refuses has not reached a
local server. The machines, asked what the log says in its order, give the logged answers. -/
theorem origin_of_response (hs : (system proxy machines world).Reachable s) {x : Response}
    (hx : s.responses r = some x) :
    ∃ request, s.arrived r = some request ∧ Origin proxy machines.client s r request x ∧
      machines.Perform world s.log s.world := by
  have hown := own_of_reachable hs r
  obtain ⟨request, harrived, hcases⟩ := hown.arrived.response x hx
  refine ⟨request, harrived, ?_, perform_of_reachable hs⟩
  rcases hcases with ⟨hm, rfl⟩ | ⟨inner, hinner, rfl⟩
  · have hidle := (hown.arrived.options request harrived hm).1
    have hstream : s.streams r = none := by
      by_contra hne
      exact hown.arrived.stream hne hidle
    exact .router hm hstream (hown.exchanged.silent hstream)
  · have hm : request.method ≠ "OPTIONS" := by
      intro hm
      rw [(hown.arrived.options request harrived hm).1] at hinner
      exact absurd hinner (by simp [Request.response])
    cases hq : s.server.requests r with
    | answered session c auth disabled data =>
      obtain ⟨stream, bytes, received, hstream, hbytes, hdata, rfl, hreplay⟩ :=
        replayed_of_answered hs hq
      have hbuilt :
          buildResponse (applyEruda proxy disabled (applyAuthMode auth received)) = inner := by
        rw [State.at, hq] at hinner
        exact Option.some.inj hinner
      rw [← hbuilt]
      split_ifs at hreplay with hcli
      · exact .stranger hm hq hstream hcli hbytes hdata hreplay
      · obtain ⟨hello, frame, hserves, hframe, hreplayed⟩ := hreplay
        exact .replayed hm hq hstream hserves (hown.madeOn hstream) hframe hreplayed
    | failed error =>
      have hpage : errorPage error = inner := by
        rw [State.at, hq] at hinner
        exact Option.some.inj hinner
      rw [← hpage]
      obtain ⟨error', hfailed, hkind⟩ := ends_of_reachable hs r (by rw [State.at, hq]; rfl)
      have hsame : error = error' := by
        rw [State.at, hq] at hfailed
        exact Request.failed.inj hfailed
      rw [← hsame] at hkind
      rcases hkind with ⟨hrefusal, hstream⟩ | hloss
      · exact .refused hm hq hrefusal hstream (hown.exchanged.silent hstream)
      · exact .lost hm hq hloss
    | _ =>
      rw [State.at, hq] at hinner
      exact absurd hinner (by simp [Request.response])

/-- Machines whose applications give every request the same answer. -/
def constantMachines (a : Reply) : Machines (List Char) (List (Outgoing (List Char))) where
  client := plainHosts
  exchange _ w q := (w ++ [q], some a)

/-- A request that is forwarded and replayed, up to the answer of the application. -/
def replay (r : ℕ) (request : PublicRequest) : List Event :=
  [.arrive r request, .server (.request r .readCurrent), .server (.request r .getSession),
    .server (.request r .lookupConnection), .server (.request r (.openBi true)),
    .server (.request r (.writeAll true)), .server (.request r (.finish true)), .serve r .acceptBi,
    .serve r (.readToEnd true), .serve r .exchange]

/-- The answer on its way back, with the entries of the tunnel map in the order given. -/
def reply (r : ℕ) (data : HttpResponseData) (order : TunnelMap.Order) : List Event :=
  [.serve r (.writeAll true), .serve r (.finish true),
    .server (.request r (.readToEnd (Wire.encode data))), .server (.request r (.readAuthMode order)),
    .server (.request r (.readErudaDisabled order)), .respond r]

/-- A page, as it gets from the application to the browser. -/
theorem origin_of_response_page :
    let c : Connection := ⟨0⟩
    let owner : SessionId := ⟨⟨Vector.replicate 16 1⟩⟩
    let hello : ClientMessage := ⟨3000, true, .bearer⟩
    let order : TunnelMap.Order := (∅ : TunnelMap.Order).insert owner ⟨c, true, .bearer⟩
    let page : Reply := ⟨200, [], [7]⟩
    let traffic := system ⟨id, "https://my-vps.com"⟩ (constantMachines page) []
    let events := (handshake c hello owner).map Event.server ++
      replay 0 ⟨"GET", "/", none, [], some []⟩ ++ reply 0 page.toFrame order
    ∃ s x request, traffic.run traffic.init events = some s ∧ s.responses 0 = some x ∧
      x.body = [7] ∧ s.arrived 0 = some request ∧
      Origin ⟨id, "https://my-vps.com"⟩ plainHosts s 0 request x := by
  intro c owner hello order page traffic events
  have hbody : (traffic.run traffic.init events).map (fun s => (s.responses 0).map Response.body) =
      some (some [7]) := by decide
  obtain ⟨s, hs, hx⟩ := Option.map_eq_some_iff.mp hbody
  obtain ⟨x, hx, hpage⟩ := Option.map_eq_some_iff.mp hx
  obtain ⟨request, harrived, horigin, -⟩ := origin_of_response ⟨events, hs⟩ hx
  exact ⟨s, x, request, hs, hx, hpage, harrived, horigin⟩

/-! ### Where a request goes -/

/-- The stream of a request, if it has one, belongs to a session with `P`. -/
def StreamTo (P : SessionId → Prop) (server : Deployment.State) (l : Local η) : Prop :=
  ∀ c stream, l.stream = some (c, stream) → ∃ id hello, P id ∧ Announced server id c hello

/-- The request was resolved to a session with `P`, and its stream belongs to such a session. -/
def HeadsTo (P : SessionId → Prop) (r : ℕ) (s : State η ω) : Prop :=
  ResolvedTo P (s.server.requests r) ∧ StreamTo P s.server (s.at r)

theorem StreamTo.localMove {P : SessionId → Prop}
    (hserver : (Deployment.system proxy).Reachable server)
    (hrequest : l.request = server.requests r) (hresolved : ResolvedTo P l.request)
    (h : StreamTo P server l) (hm : LocalMove proxy machines server r l ev l') :
    StreamTo P server l' := by
  cases hm with
  | preflight _ _ => exact h
  | start _ _ _ => exact h
  | @request e q hpermits hstep =>
    intro c x hx
    rcases (advance_of_step hpermits hstep).stream_cases hx with ⟨frame, session, hq⟩ | ⟨x₀, hx₀⟩
    · rw [hq] at hresolved hrequest
      obtain ⟨id, hello, howner, ha⟩ :=
        (routed_of_reachable hserver).connection r c (by rw [← hrequest]; rfl)
      rcases hresolved with ⟨id', hP, howner'⟩ | hend
      · rw [← hrequest] at howner
        have hid : id' = id := Option.some.inj (howner'.symm.trans howner)
        exact ⟨id, hello, hid ▸ hP, ha⟩
      · exact absurd hend (by simp [Request.isEnded])
    · exact h c x₀ hx₀
  | @serve c stream stream' port e w w' new hs _ _ =>
    intro c' x hx
    rw [← (Prod.mk.inj (Option.some.inj hx)).1]
    exact h c stream hs
  | @stranger c stream bytes hs _ _ =>
    intro c' x hx
    rw [← (Prod.mk.inj (Option.some.inj hx)).1]
    exact h c stream hs
  | respond _ _ => exact h

theorem HeadsTo.step {P : SessionId → Prop} {s' : State η ω} {ev : Event}
    (hs : (system proxy machines world).Reachable s) (h : HeadsTo P r s)
    (hstep : step proxy machines s ev = some s') : HeadsTo P r s' := by
  have hserver := reachable_server hs
  have hcons := consistent_of_reachable hserver
  have hstream : StreamTo P s.server (s'.at r) := by
    rcases localMove_of_step hstep r with hsame | hm
    · rw [hsame]
      exact h.2
    · exact h.2.localMove hserver rfl h.1 hm
  rcases server_cases hstep with hsame | ⟨e, he⟩
  · exact ⟨hsame ▸ h.1, hsame ▸ hstream⟩
  · have hm := move_of_step he
    refine ⟨resolvedTo_move hcons h.1 hm, ?_⟩
    intro c x hx
    obtain ⟨id, hello, hP, ha⟩ := hstream c x hx
    exact ⟨id, hello, hP, ha.move hcons hm⟩

theorem HeadsTo.run {P : SessionId → Prop} {s' : State η ω} {events : List Event}
    (hs : (system proxy machines world).Reachable s) (h : HeadsTo P r s)
    (hrun : (system proxy machines world).run s events = some s') : HeadsTo P r s' := by
  have hstep : ∀ t ev t', (system proxy machines world).Reachable t ∧ HeadsTo P r t →
      (system proxy machines world).step t ev = some t' →
      (system proxy machines world).Reachable t' ∧ HeadsTo P r t' :=
    fun t ev t' ht hev => ⟨ht.1.step hev, ht.2.step ht.1 hev⟩
  exact (Transition.System.run_preserves hstep ⟨hs, h⟩ hrun).2

/-- The host is read before the request has a stream. -/
theorem headsTo_read {s' : State η ω} (hs : (system proxy machines world).Reachable s)
    (hread : (system proxy machines world).step s (.server (.request r .readCurrent)) = some s') :
    HeadsTo (fun id => current s.server = some id) r s' := by
  have hserver := reachable_server hs
  have hpiped := (own_of_reachable hs r).piped
  obtain ⟨server, hstep, rfl⟩ := Option.map_eq_some_iff.mp hread
  refine ⟨resolvedTo_read hserver hstep, ?_⟩
  have hread : (Deployment.system proxy).step s.server (.request r .readCurrent) = some server := hstep
  have hrequest := step_request hread
  cases hq : s.server.requests r with
  | readCurrent frame =>
    have hnone := hpiped.unopened (by rw [State.at, hq]; rfl) (by rw [State.at, hq]; rfl)
    intro c x hx
    rw [State.at_withStream_self] at hx
    exact absurd (hnone.symm.trans hx) (by simp)
  | _ =>
    rw [hq] at hrequest
    exact absurd hrequest (by simp [Request.step])

/-- Whatever happens after the proxy has read who owns the host, the request is sent on no machine but
that owner's: at most eleven times, first exactly as the CLI builds it from the frame of this request,
which goes to the port of the owner's `Hello` on `localhost`, then only where the client follows a
redirect, and not again once an answer was not followed. The answers are that machine's. -/
theorem exchanges_reach_owner {s₁ s₂ : State η ω} {events : List Event}
    (hs : (system proxy machines world).Reachable s)
    (hread : (system proxy machines world).step s (.server (.request r .readCurrent)) = some s₁)
    (hrun : (system proxy machines world).run s₁ events = some s₂) (hsent : s₂.sent r ≠ []) :
    ∃ id c hello data, current s.server = some id ∧ Serves s₂.server id c hello ∧
      MadeOn s₂ r c ∧ machines.Perform world s₂.log s₂.world ∧
      Forwards proxy s₂ r data ∧ Begun machines.client hello.localPort data (s₂.sent r) ∧
      (s₂.sent r).length ≤ redirectLimit + 1 ∧
      (∀ first ∈ (s₂.sent r).head?,
        buildRequest machines.client hello.localPort data = .ok first.1 ∧
          ∀ localhost request, machines.client.parseHost "localhost".toList = some localhost →
            s₂.arrived r = some request → FromHttp request →
              reaches localhost hello.localPort first.1) ∧
      ∀ q a rest, s₂.sent r = (q, some a) :: rest → machines.client.follow q a = none →
        rest = [] := by
  have hs₂ := (hs.step hread).run hrun
  have hserver := reachable_server hs₂
  have hown := own_of_reachable hs₂ r
  have hheads := (headsTo_read hs hread).run (hs.step hread) hrun
  cases hstream : s₂.streams r with
  | none => exact absurd (hown.exchanged.silent hstream) hsent
  | some x =>
    obtain ⟨c, stream⟩ := x
    obtain ⟨id, hello, hcurrent, ha⟩ := hheads.2 c stream hstream
    cases hport : servedBy s₂.server c with
    | none => exact absurd (hown.exchanged.unserved c stream hstream hport).2.1 hsent
    | some port =>
      obtain ⟨hserves, hlocal⟩ := serves_of_servedBy hserver ha hport
      rcases (hown.exchanged.served c stream port hstream hport).begun with
        hempty | ⟨sent, data, hrequest, hdata, hbegun⟩
      · exact absurd hempty hsent
      · rw [hlocal] at hbegun
        obtain ⟨hlength, hfirst⟩ := hbegun.length_le
        have hforwards := hown.forwards hstream hrequest hdata
        refine ⟨id, c, hello, data, hcurrent, hserves, hown.madeOn hstream, perform_of_reachable hs₂,
          hforwards, hbegun, hlength, ?_,
          fun q a rest hhead hfollow => hbegun.rest_eq_nil hhead hfollow⟩
        intro first hmem
        refine ⟨hfirst first hmem, ?_⟩
        intro localhost request hlocalhost harrived hhttp
        obtain ⟨request', body, harrived', -, -, rfl⟩ := hforwards
        obtain rfl : request = request' := Option.some.inj (harrived.symm.trans harrived')
        exact reaches_of_ok hlocalhost hhttp (hfirst first hmem)

/-- A second CLI takes over the host when the request has been resolved: the first one replays it. -/
theorem exchanges_reach_owner_takeover :
    let older : SessionId := ⟨⟨Vector.replicate 16 1⟩⟩
    let newer : SessionId := ⟨⟨Vector.replicate 16 2⟩⟩
    let proxy : ProxyState := ⟨id, "https://my-vps.com"⟩
    let traffic := system proxy (constantMachines ⟨200, [], [7]⟩) []
    ∃ s c hello data, traffic.Reachable s ∧ current s.server = some newer ∧
      Serves s.server older c hello ∧ MadeOn s 0 c ∧ Forwards proxy s 0 data ∧
      (s.sent 0).length = 1 ∧
      ∀ q ∈ (s.sent 0).head?, buildRequest plainHosts hello.localPort data = .ok q.1 := by
  intro older newer proxy traffic
  let before : List Event := (handshake ⟨0⟩ ⟨3000, true, .bearer⟩ older).map Event.server ++
    [.arrive 0 ⟨"GET", "/", none, [], some []⟩]
  let after : List Event := (handshake ⟨1⟩ ⟨8080, true, .bearer⟩ newer).map Event.server ++
    (replay 0 ⟨"GET", "/", none, [], some []⟩).drop 2
  have hend : (traffic.run traffic.init
      (before ++ .server (.request 0 .readCurrent) :: after)).map
      (fun s => ((s.sent 0).length, current s.server)) = some (1, some newer) := by decide
  have howner : (traffic.run traffic.init before).map (fun s => current s.server) =
      some (some older) := by decide
  obtain ⟨s₂, hrun, hfacts⟩ := Option.map_eq_some_iff.mp hend
  obtain ⟨s, s₁, hbefore, hread, hafter⟩ := (traffic.run_split_iff _ _ _ _ _).mp hrun
  rw [hbefore] at howner
  obtain ⟨hlength, hnewer⟩ := Prod.mk.inj hfacts
  have hsent : s₂.sent 0 ≠ [] := by
    intro hempty
    rw [hempty] at hlength
    exact absurd hlength (by simp)
  obtain ⟨id, c, hello, data, hcurrent, hserves, hmade, -, hdata, -, -, hfirst, -⟩ :=
    exchanges_reach_owner ⟨before, hbefore⟩ hread hafter hsent
  have hid : id = older := Option.some.inj (hcurrent.symm.trans (Option.some.inj howner))
  exact ⟨s₂, c, hello, data, ⟨_, hrun⟩, hnewer, hid ▸ hserves, hmade, hdata, hlength,
    fun q hq => (hfirst q hq).1⟩

end

end Mobilink.Deployment.Traffic
