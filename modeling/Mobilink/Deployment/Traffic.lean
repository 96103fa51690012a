import Mobilink.Cli.Serve
import Mobilink.Deployment.Routing
import Mobilink.Library.Simulation
import Mobilink.Server.Cors

/-! The whole deployment: the public router in front of the proxy handler, the server with its
connections, a stream for every request that is forwarded, and the tasks of the CLIs that replay what
arrives on the streams against their local servers. -/
namespace Mobilink.Deployment.Traffic
open Mobilink.Core Mobilink.Server Mobilink.Cli

variable {η ω : Type*}

/-- The HTTP client of the CLIs, and what answers it on the machine behind each connection. -/
structure Machines (η ω : Type*) where
  client : HttpClient η
  exchange : Connection → ω → Outgoing η → ω × Option Reply

/-- One exchange with a local server: the request it was made for, the connection of the CLI on whose
machine it was made, and what was sent and answered. -/
structure Entry (η : Type*) where
  request : ℕ
  machine : Connection
  exchange : Exchange η

/-- Made one after another from `w` on, each on its own machine, the exchanges get these answers and
leave the world as `w'`. -/
def Machines.Perform (machines : Machines η ω) : ω → List (Entry η) → ω → Prop
  | w, [], w' => w = w'
  | w, entry :: rest, w' =>
    (machines.exchange entry.machine w entry.exchange.1).2 = entry.exchange.2 ∧
      machines.Perform (machines.exchange entry.machine w entry.exchange.1).1 rest w'

structure State (η ω : Type*) where
  server : Deployment.State
  world : ω
  arrived : ℕ → Option PublicRequest
  /-- The stream that `forward` opened for a request, and the connection it belongs to. -/
  streams : ℕ → Option (Connection × RequestStream η)
  /-- Every exchange of a CLI with a local server, oldest first. -/
  log : List (Entry η)
  responses : ℕ → Option Response

/-- `arrive` and `respond` are the two ends of the public router. A stranger is a peer without a CLI
that answers on a stream as it likes. -/
inductive Event where
  | arrive (r : ℕ) (request : PublicRequest)
  | server (e : Deployment.Event)
  | serve (r : ℕ) (e : StreamEvent)
  | stranger (r : ℕ) (bytes : List UInt8)
  | respond (r : ℕ)

def init (publicUrl : String) (world : ω) : State η ω where
  server := Deployment.init publicUrl
  world
  arrived _ := none
  streams _ := none
  log := []
  responses _ := none

/-- The CLI enters `serve` when its handshake has succeeded, with the port of its command line. -/
def servingPort : Cli.Handshake → Option UInt16
  | .established hello _ => some hello.localPort
  | _ => none

def servedBy (s : Deployment.State) (c : Connection) : Option UInt16 :=
  (s.clis c).bind servingPort

def preflight (request : PublicRequest) : Response :=
  corsPreflightResponse (request.headers.get "origin")
    (request.headers.get "access-control-request-headers")

/-- A step of `forward` on the stream of its request. -/
def onStream (q : Request) (e : RequestEvent) (stream : Option (Connection × RequestStream η)) :
    Option (Connection × RequestStream η) :=
  match q, e with
  | .forwarding .openBi _ _ c, .openBi true => some (c, .opened)
  | .forwarding .writeAll frame _ _, .writeAll true =>
    stream.map fun x => (x.1, { x.2 with request := some ⟨frame, false⟩ })
  | .forwarding .finish _ _ _, .finish true =>
    stream.map fun x => (x.1, { x.2 with request := x.2.request.map Stream.finish })
  | _, _ => stream

/-- The server has not seen the connection close. -/
def isOpen (s : Deployment.State) (c : Connection) : Bool :=
  match s.tasks c with
  | some (.opened phase _ _) => !phase.sawClose
  | _ => true

/-- What the network can let a request do: it starts through the router only, sends nothing more on a
connection that has closed, and reads what has arrived on its stream, unless the stream breaks. -/
def permits (isOpen : Connection → Bool) (q : Request)
    (stream : Option (Connection × RequestStream η)) : RequestEvent → Bool
  | .start _ => false
  | .openBi true | .writeAll true | .finish true => q.connection.all isOpen
  | .readToEnd (some bytes) => (stream.bind fun x => Stream.delivered x.2.response) = some bytes
  | _ => true

/-- The steps of a CLI whose bytes the server gets. -/
def replies : StreamEvent → Bool
  | .writeAll ok | .finish ok => ok
  | _ => false

namespace State

variable (s : State η ω) (r : ℕ)

def withServer (server : Deployment.State) : State η ω := { s with server }

def withArrival (request : PublicRequest) : State η ω :=
  { s with arrived := Function.update s.arrived r (some request) }

def withStream (stream : Option (Connection × RequestStream η)) : State η ω :=
  { s with streams := Function.update s.streams r stream }

def withExchanges (c : Connection) (world : ω) (new : List (Exchange η)) : State η ω :=
  { s with world, log := s.log ++ new.map fun exchange => ⟨r, c, exchange⟩ }

def withResponse (response : Response) : State η ω :=
  { s with responses := Function.update s.responses r (some response) }

end State

def step (proxy : ProxyState) (machines : Machines η ω) (s : State η ω) :
    Event → Option (State η ω)
  | .arrive r request =>
    if (s.arrived r).isSome then none
    else if request.method = "OPTIONS" then
      some ((s.withArrival r request).withResponse r (preflight request))
    else
      (Deployment.step proxy s.server (.request r (.start request))).map
        (s.withArrival r request).withServer
  | .server (.request r e) =>
    if permits (isOpen s.server) (s.server.requests r) (s.streams r) e then
      (Deployment.step proxy s.server (.request r e)).map fun server =>
        (s.withServer server).withStream r (onStream (s.server.requests r) e (s.streams r))
    else none
  | .server e => (Deployment.step proxy s.server e).map s.withServer
  | .serve r e =>
    (s.streams r).bind fun x => (servedBy s.server x.1).bind fun port =>
      -- A task goes on with what had arrived when the connection closed, but its answer is lost.
      if replies e = true → isOpen s.server x.1 = true then
        (x.2.step machines.client (machines.exchange x.1) port s.world e).map fun out =>
          (s.withStream r (some (x.1, out.2.1))).withExchanges r x.1 out.1 out.2.2
      else none
  | .stranger r bytes =>
    (s.streams r).bind fun x =>
      if s.server.clis x.1 = none ∧ x.2.response = none ∧ isOpen s.server x.1 = true then
        some (s.withStream r (some (x.1, { x.2 with response := some ⟨bytes, true⟩ })))
      else none
  | .respond r =>
    (s.arrived r).bind fun request => (s.server.requests r).response.bind fun response =>
      if (s.responses r).isSome then none
      else some (s.withResponse r (corsLayer request response))

def system (proxy : ProxyState) (machines : Machines η ω) (world : ω) :
    Transition.System (State η ω) Event :=
  ⟨init proxy.publicUrl world, step proxy machines⟩

/-- The exchanges that were made for one request. -/
def State.sent (s : State η ω) (r : ℕ) : List (Exchange η) :=
  (s.log.filter fun entry => entry.request = r).map Entry.exchange

/-- The machines on which they were made. -/
def State.machines (s : State η ω) (r : ℕ) : List Connection :=
  (s.log.filter fun entry => entry.request = r).map Entry.machine

/-! ### What a step can be -/

/-- What the state holds of one request. -/
structure Local (η : Type*) where
  arrived : Option PublicRequest
  request : Request
  stream : Option (Connection × RequestStream η)
  sent : List (Exchange η)
  machines : List Connection
  response : Option Response

def State.at (s : State η ω) (r : ℕ) : Local η :=
  ⟨s.arrived r, s.server.requests r, s.streams r, s.sent r, s.machines r, s.responses r⟩

/-- What a step does to the request `r` that it is about. -/
inductive LocalMove (proxy : ProxyState) (machines : Machines η ω) (server : Deployment.State)
    (r : ℕ) (l : Local η) : Event → Local η → Prop where
  | preflight {request : PublicRequest} (h : l.arrived = none) (hm : request.method = "OPTIONS") :
    LocalMove proxy machines server r l (.arrive r request)
      { l with arrived := some request, response := some (preflight request) }
  | start {request : PublicRequest} {q : Request} (h : l.arrived = none)
      (hm : request.method ≠ "OPTIONS")
      (hstep : l.request.step proxy server.stores (.start request) = some q) :
    LocalMove proxy machines server r l (.arrive r request)
      { l with arrived := some request, request := q }
  | request {e : RequestEvent} {q : Request}
      (hpermits : permits (isOpen server) l.request l.stream e = true)
      (hstep : l.request.step proxy server.stores e = some q) :
    LocalMove proxy machines server r l (.server (.request r e))
      { l with request := q, stream := onStream l.request e l.stream }
  | serve {c : Connection} {stream stream' : RequestStream η} {port : UInt16} {e : StreamEvent}
      {w w' : ω} {new : List (Exchange η)} (h : l.stream = some (c, stream))
      (hport : servedBy server c = some port)
      (hstep : stream.step machines.client (machines.exchange c) port w e = some (w', stream', new)) :
    LocalMove proxy machines server r l (.serve r e)
      { l with stream := some (c, stream'), sent := l.sent ++ new,
               machines := l.machines ++ new.map fun _ => c }
  | stranger {c : Connection} {stream : RequestStream η} (bytes : List UInt8)
      (h : l.stream = some (c, stream)) (hcli : server.clis c = none)
      (hresponse : stream.response = none) :
    LocalMove proxy machines server r l (.stranger r bytes)
      { l with stream := some (c, { stream with response := some ⟨bytes, true⟩ }) }
  | respond {request : PublicRequest} {response : Response} (h : l.arrived = some request)
      (hresponse : l.request.response = some response) (hnone : l.response = none) :
    LocalMove proxy machines server r l (.respond r)
      { l with response := some (corsLayer request response) }

namespace State

variable (s : State η ω) {r r' : ℕ}

theorem at_withServer (server : Deployment.State) (r : ℕ) :
    (s.withServer server).at r = { s.at r with request := server.requests r } := rfl

theorem at_withArrival_self (request : PublicRequest) :
    (s.withArrival r request).at r = { s.at r with arrived := some request } := by
  simp [State.at, withArrival, State.sent, State.machines]

theorem at_withArrival_ne (h : r ≠ r') (request : PublicRequest) :
    (s.withArrival r' request).at r = s.at r := by
  simp [State.at, withArrival, State.sent, State.machines, Function.update_of_ne h]

theorem at_withStream_self (stream : Option (Connection × RequestStream η)) :
    (s.withStream r stream).at r = { s.at r with stream } := by
  simp [State.at, withStream, State.sent, State.machines]

theorem at_withStream_ne (h : r ≠ r') (stream : Option (Connection × RequestStream η)) :
    (s.withStream r' stream).at r = s.at r := by
  simp [State.at, withStream, State.sent, State.machines, Function.update_of_ne h]

theorem at_withExchanges_self (c : Connection) (world : ω) (new : List (Exchange η)) :
    (s.withExchanges r c world new).at r =
      { s.at r with sent := s.sent r ++ new, machines := s.machines r ++ new.map fun _ => c } := by
  simp [State.at, withExchanges, State.sent, State.machines, List.filter_map, Function.comp_def]

theorem at_withExchanges_ne (h : r ≠ r') (c : Connection) (world : ω) (new : List (Exchange η)) :
    (s.withExchanges r' c world new).at r = s.at r := by
  simp [State.at, withExchanges, State.sent, State.machines, List.filter_map, Function.comp_def,
    Ne.symm h]

theorem at_withResponse_self (response : Response) :
    (s.withResponse r response).at r = { s.at r with response := some response } := by
  simp [State.at, withResponse, State.sent, State.machines]

theorem at_withResponse_ne (h : r ≠ r') (response : Response) :
    (s.withResponse r' response).at r = s.at r := by
  simp [State.at, withResponse, State.sent, State.machines, Function.update_of_ne h]

end State

theorem requests_of_step_request {proxy : ProxyState} {server server' : Deployment.State} {r r' : ℕ}
    {e : RequestEvent} (h : Deployment.step proxy server (.request r' e) = some server')
    (hr : r ≠ r') : server'.requests r = server.requests r := by
  obtain ⟨q, -, rfl⟩ := Option.map_eq_some_iff.mp h
  exact requests_withRequest_ne server hr q

/-- The request that an event is about. The other steps of the server are about connections. -/
def Event.request? : Event → Option ℕ
  | .arrive r _ | .server (.request r _) | .serve r _ | .stranger r _ | .respond r => some r
  | .server _ => none

section

variable {proxy : ProxyState} {machines : Machines η ω} {s s' : State η ω} {ev : Event} {r : ℕ}

theorem at_of_step_ne (h : step proxy machines s ev = some s') (hr : ev.request? ≠ some r) :
    s'.at r = s.at r := by
  cases ev with
  | arrive r' request =>
    have hne : r ≠ r' := fun heq => hr (congrArg some heq.symm)
    simp only [step] at h
    split_ifs at h
    · rw [← Option.some.inj h, State.at_withResponse_ne _ hne, State.at_withArrival_ne _ hne]
    · obtain ⟨server, hserver, rfl⟩ := Option.map_eq_some_iff.mp h
      rw [State.at_withServer, State.at_withArrival_ne _ hne, requests_of_step_request hserver hne]
      rfl
  | server e =>
    cases e with
    | request r' e =>
      have hne : r ≠ r' := fun heq => hr (congrArg some heq.symm)
      simp only [step] at h
      split_ifs at h
      obtain ⟨server, hserver, rfl⟩ := Option.map_eq_some_iff.mp h
      rw [State.at_withStream_ne _ hne, State.at_withServer, requests_of_step_request hserver hne]
      rfl
    | _ =>
      obtain ⟨server, hserver, rfl⟩ := Option.map_eq_some_iff.mp h
      have hmove := move_of_step hserver
      (cases hmove; rfl)
  | serve r' e =>
    have hne : r ≠ r' := fun heq => hr (congrArg some heq.symm)
    obtain ⟨x, hx, h⟩ := Option.bind_eq_some_iff.mp h
    obtain ⟨port, hport, h⟩ := Option.bind_eq_some_iff.mp h
    split_ifs at h
    obtain ⟨out, hout, rfl⟩ := Option.map_eq_some_iff.mp h
    rw [State.at_withExchanges_ne _ hne, State.at_withStream_ne _ hne]
  | stranger r' bytes =>
    have hne : r ≠ r' := fun heq => hr (congrArg some heq.symm)
    obtain ⟨x, hx, h⟩ := Option.bind_eq_some_iff.mp h
    split_ifs at h
    rw [← Option.some.inj h]
    exact State.at_withStream_ne _ hne _
  | respond r' =>
    have hne : r ≠ r' := fun heq => hr (congrArg some heq.symm)
    obtain ⟨request, hrequest, h⟩ := Option.bind_eq_some_iff.mp h
    obtain ⟨response, hresponse, h⟩ := Option.bind_eq_some_iff.mp h
    split_ifs at h
    rw [← Option.some.inj h]
    exact State.at_withResponse_ne _ hne _

theorem localMove_of_request (h : step proxy machines s ev = some s') (hr : ev.request? = some r) :
    LocalMove proxy machines s.server r (s.at r) ev (s'.at r) := by
  cases ev with
  | arrive r' request =>
    obtain rfl : r' = r := Option.some.inj hr
    simp only [step] at h
    split_ifs at h with harrived hm
    · rw [← Option.some.inj h, State.at_withResponse_self, State.at_withArrival_self]
      exact .preflight (by simpa [State.at] using harrived) hm
    · obtain ⟨server, hserver, rfl⟩ := Option.map_eq_some_iff.mp h
      rw [State.at_withServer, State.at_withArrival_self]
      have hstart : (Deployment.system proxy).step s.server (.request r' _) = some server := hserver
      exact .start (by simpa [State.at] using harrived) hm (step_request hstart)
  | server e =>
    cases e with
    | request r' e =>
      obtain rfl : r' = r := Option.some.inj hr
      simp only [step] at h
      split_ifs at h with hpermits
      obtain ⟨server, hserver, rfl⟩ := Option.map_eq_some_iff.mp h
      rw [State.at_withStream_self, State.at_withServer]
      have hrequest : (Deployment.system proxy).step s.server (.request r' e) = some server := hserver
      exact .request hpermits (step_request hrequest)
    | _ => exact absurd hr (by simp [Event.request?])
  | serve r' e =>
    obtain rfl : r' = r := Option.some.inj hr
    obtain ⟨x, hx, h⟩ := Option.bind_eq_some_iff.mp h
    obtain ⟨port, hport, h⟩ := Option.bind_eq_some_iff.mp h
    split_ifs at h
    obtain ⟨out, hout, rfl⟩ := Option.map_eq_some_iff.mp h
    rw [State.at_withExchanges_self, State.at_withStream_self]
    exact .serve hx hport hout
  | stranger r' bytes =>
    obtain rfl : r' = r := Option.some.inj hr
    obtain ⟨x, hx, h⟩ := Option.bind_eq_some_iff.mp h
    split_ifs at h with hcond
    rw [← Option.some.inj h, State.at_withStream_self]
    exact .stranger bytes hx hcond.1 hcond.2.1
  | respond r' =>
    obtain rfl : r' = r := Option.some.inj hr
    obtain ⟨request, hrequest, h⟩ := Option.bind_eq_some_iff.mp h
    obtain ⟨response, hresponse, h⟩ := Option.bind_eq_some_iff.mp h
    split_ifs at h with hnone
    rw [← Option.some.inj h, State.at_withResponse_self]
    exact .respond hrequest hresponse (by simpa [State.at] using hnone)

/-- Every step either leaves a request as it was, or is one of the steps of that request. -/
theorem localMove_of_step (h : step proxy machines s ev = some s') (r : ℕ) :
    s'.at r = s.at r ∨ LocalMove proxy machines s.server r (s.at r) ev (s'.at r) := by
  by_cases hr : ev.request? = some r
  · exact Or.inr (localMove_of_request h hr)
  · exact Or.inl (at_of_step_ne h hr)

end

/-! ### The server inside -/

/-- The step of the server that an event is, if it is one. -/
def serverEvent : Event → Option Deployment.Event
  | .arrive r request =>
    if request.method = "OPTIONS" then none else some (.request r (.start request))
  | .server e => some e
  | _ => none

/-- Of every step, the server sees one of its own steps or nothing. -/
theorem server_of_step {proxy : ProxyState} {machines : Machines η ω} {s s' : State η ω}
    {ev : Event} (h : step proxy machines s ev = some s') :
    match serverEvent ev with
    | none => s'.server = s.server
    | some e => Deployment.step proxy s.server e = some s'.server := by
  cases ev with
  | arrive r request =>
    simp only [step, serverEvent] at h ⊢
    split_ifs at h ⊢
    · rw [← Option.some.inj h]
      rfl
    · obtain ⟨server, hserver, rfl⟩ := Option.map_eq_some_iff.mp h
      exact hserver
  | server e =>
    cases e with
    | request r e =>
      simp only [step] at h
      split_ifs at h
      obtain ⟨server, hserver, rfl⟩ := Option.map_eq_some_iff.mp h
      exact hserver
    | _ =>
      obtain ⟨server, hserver, rfl⟩ := Option.map_eq_some_iff.mp h
      exact hserver
  | serve r e =>
    obtain ⟨x, -, h⟩ := Option.bind_eq_some_iff.mp h
    obtain ⟨port, -, h⟩ := Option.bind_eq_some_iff.mp h
    split_ifs at h
    obtain ⟨out, -, rfl⟩ := Option.map_eq_some_iff.mp h
    rfl
  | stranger r bytes =>
    obtain ⟨x, -, h⟩ := Option.bind_eq_some_iff.mp h
    split_ifs at h
    rw [← Option.some.inj h]
    rfl
  | respond r =>
    obtain ⟨request, -, h⟩ := Option.bind_eq_some_iff.mp h
    obtain ⟨response, -, h⟩ := Option.bind_eq_some_iff.mp h
    split_ifs at h
    rw [← Option.some.inj h]
    rfl

/-- Whatever the streams, the CLIs and the router do, the server runs as it does on its own. -/
theorem simulation (proxy : ProxyState) (machines : Machines η ω) (world : ω) :
    Transition.Simulation (system proxy machines world) (Deployment.system proxy) serverEvent some
      fun s server => s.server = server := by
  refine ⟨rfl, ?_⟩
  rintro s _ ev s' - rfl hstep
  have hserver := server_of_step hstep
  cases hseen : serverEvent ev with
  | none =>
    rw [hseen] at hserver
    exact ⟨[], s.server, rfl, rfl, hserver⟩
  | some e =>
    rw [hseen] at hserver
    exact ⟨[e], s'.server, by rw [Transition.System.run_singleton]; exact hserver, rfl, rfl⟩

/-- The server stays as it is, or makes one of its own steps. -/
theorem server_cases {proxy : ProxyState} {machines : Machines η ω} {s s' : State η ω} {ev : Event}
    (h : step proxy machines s ev = some s') :
    s'.server = s.server ∨ ∃ e, Deployment.step proxy s.server e = some s'.server := by
  have hserver := server_of_step h
  cases hseen : serverEvent ev with
  | none =>
    rw [hseen] at hserver
    exact Or.inl hserver
  | some e =>
    rw [hseen] at hserver
    exact Or.inr ⟨e, hserver⟩

/-- A step about a request leaves everything else on the server as it was. -/
theorem server_of_request {proxy : ProxyState} {machines : Machines η ω} {s s' : State η ω}
    {ev : Event} {r : ℕ} (hstep : step proxy machines s ev = some s') (hr : ev.request? = some r) :
    s'.server = s.server.withRequest r (s'.server.requests r) := by
  have hserver := server_of_step hstep
  have hsame : s'.server = s.server → s'.server = s.server.withRequest r (s'.server.requests r) := by
    intro hsame
    rw [hsame, Deployment.State.withRequest, Function.update_eq_self]
  have hrequest : ∀ {r' e}, r' = r → Deployment.step proxy s.server (.request r' e) = some s'.server →
      s'.server = s.server.withRequest r (s'.server.requests r) := by
    rintro r' e rfl h
    obtain ⟨q, -, hq⟩ := Option.map_eq_some_iff.mp h
    rw [← hq, requests_withRequest_self]
  cases ev with
  | arrive r' request =>
    simp only [serverEvent] at hserver
    split_ifs at hserver
    · exact hsame hserver
    · exact hrequest (Option.some.inj hr) hserver
  | server e =>
    cases e with
    | request r' e => exact hrequest (Option.some.inj hr) hserver
    | _ => exact absurd hr (by simp [Event.request?])
  | _ => exact hsame hserver

theorem reachable_server {proxy : ProxyState} {machines : Machines η ω} {world : ω} {s : State η ω}
    (hs : (system proxy machines world).Reachable s) :
    (Deployment.system proxy).Reachable s.server := by
  obtain ⟨server, hserver, rfl⟩ := (simulation proxy machines world).reachable hs
  exact hserver

end Mobilink.Deployment.Traffic
