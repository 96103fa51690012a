import Mobilink.Server.HandleConnection
import Mobilink.Server.Http

/-! `proxy_handler` and the pipeline under it: one public request, cut at every point where it waits
for the tunnel or reads a store that connections change. -/
namespace Mobilink.Server
open Mobilink.Core

inductive ForwardError where
  | tunnelNotFound
  | tunnelDisconnected
  deriving DecidableEq

inductive PipelineError where
  | sessionNotFound
  | forwardFailed (error : ForwardError)
  deriving DecidableEq

/-- The ways in which a request ends without a response of the tunnel. -/
inductive ProxyError where
  | bodyTooLarge
  | encodeFailed
  | taskFailed
  | pipeline (error : PipelineError)
  | unreadableResponse
  deriving DecidableEq

structure TextResponse where
  status : UInt16
  message : String
  deriving DecidableEq

def ProxyError.textResponse : ProxyError → TextResponse
  | .bodyTooLarge => ⟨413, "Request body too large.\n"⟩
  | .encodeFailed => ⟨500, "Failed to encode request.\n"⟩
  | .taskFailed => ⟨500, "Proxy task failed.\n"⟩
  | .pipeline .sessionNotFound => ⟨404, "No active session for this URL.\n"⟩
  | .pipeline (.forwardFailed _) => ⟨502, "The developer's tunnel is not reachable.\n"⟩
  | .unreadableResponse => ⟨502, "The tunnel returned an unreadable response.\n"⟩

/-- What `QuicTunnelForwarder::forward` does next on the connection it looked up. -/
inductive ForwardStage where
  | openBi
  | writeAll
  | finish
  | readToEnd
  deriving DecidableEq

/-- From `received` on, `session` and `connection` say where the frame came from. -/
inductive Request where
  | idle
  | readCurrent (frame : List UInt8)
  | getSession (frame : List UInt8) (owner : SessionId)
  | lookupConnection (frame : List UInt8) (session : Session)
  | forwarding (stage : ForwardStage) (frame : List UInt8) (session : Session)
      (connection : Connection)
  | received (session : Session) (connection : Connection) (response : HttpResponseData)
  | authApplied (session : Session) (connection : Connection) (auth : AuthMode)
      (response : HttpResponseData)
  | answered (session : Session) (connection : Connection) (auth : AuthMode) (erudaDisabled : Bool)
      (response : HttpResponseData)
  | failed (error : ProxyError)
  | panicked
  deriving DecidableEq

/-- What a request does next, with the answer of the network or the order in which the hash map
lists its entries. -/
inductive RequestEvent where
  | start (request : PublicRequest)
  | readCurrent
  | getSession
  | lookupConnection
  | openBi (ok : Bool)
  | writeAll (ok : Bool)
  | finish (ok : Bool)
  | readToEnd (bytes : Option (List UInt8))
  | readAuthMode (order : TunnelMap.Order)
  | readErudaDisabled (order : TunnelMap.Order)

namespace Request

def forwardFailed (e : ForwardError) : Request := .failed (.pipeline (.forwardFailed e))

/-- The first half of `proxy_handler`, up to the call of the pipeline. -/
def acceptRequest (proxy : ProxyState) (request : PublicRequest) : Request :=
  match toBytes request.body maxBodyBytes with
  | none => .failed .bodyTooLarge
  | some bodyBytes =>
    match Wire.encode (requestData proxy.publicUrl request bodyBytes) with
    | none => .failed .encodeFailed
    | some frame => .readCurrent frame

def receive (session : Session) (connection : Connection) (bytes : Option (List UInt8)) : Request :=
  match bytes.bind (Wire.readToEnd Wire.maxFrameBytes) with
  | none => forwardFailed .tunnelDisconnected
  | some bytes =>
    match Wire.decode bytes with
    | none => .failed .unreadableResponse
    | some response => .received session connection response

def step (proxy : ProxyState) (st : Stores) : Request → RequestEvent → Option Request
  | .idle, .start request => some (acceptRequest proxy request)
  | .readCurrent frame, .readCurrent =>
    match st.registry.current.lock with
    | some (some owner) => some (.getSession frame owner)
    | _ => some (.failed (.pipeline .sessionNotFound))
  | .getSession frame owner, .getSession =>
    match st.registry.getSession owner with
    | some session => some (.lookupConnection frame session)
    | none => some (.failed (.pipeline .sessionNotFound))
  | .lookupConnection frame session, .lookupConnection =>
    match st.tunnels.connection session.id with
    | none => some (.failed .taskFailed)
    | some none => some (forwardFailed .tunnelNotFound)
    | some (some connection) => some (.forwarding .openBi frame session connection)
  | .forwarding .openBi frame session connection, .openBi ok =>
    if ok then some (.forwarding .writeAll frame session connection)
    else some (forwardFailed .tunnelDisconnected)
  | .forwarding .writeAll frame session connection, .writeAll ok =>
    if ok then some (.forwarding .finish frame session connection)
    else some (forwardFailed .tunnelDisconnected)
  | .forwarding .finish frame session connection, .finish ok =>
    if ok then some (.forwarding .readToEnd frame session connection)
    else some (forwardFailed .tunnelDisconnected)
  | .forwarding .readToEnd _ session connection, .readToEnd bytes =>
    some (receive session connection bytes)
  | .received session connection response, .readAuthMode order =>
    if order.toFinmap = st.tunnels.inner.value then
      match st.tunnels.authMode order with
      | none => some .panicked
      | some auth => some (.authApplied session connection auth (applyAuthMode auth response))
    else none
  | .authApplied session connection auth response, .readErudaDisabled order =>
    if order.toFinmap = st.tunnels.inner.value then
      match st.tunnels.erudaDisabled order with
      | none => some .panicked
      | some disabled =>
        some (.answered session connection auth disabled (applyEruda proxy disabled response))
    else none
  | _, _ => none

/-- The session that owned the host when the request was resolved. -/
def owner : Request → Option SessionId
  | .getSession _ owner => some owner
  | .lookupConnection _ session | .forwarding _ _ session _ | .received session _ _
  | .authApplied session _ _ _ | .answered session _ _ _ _ => some session.id
  | _ => none

/-- The session that `resolve_session` returned. -/
def session : Request → Option Session
  | .lookupConnection _ session | .forwarding _ _ session _ | .received session _ _
  | .authApplied session _ _ _ | .answered session _ _ _ _ => some session
  | _ => none

/-- The connection that `forward` looked up. -/
def connection : Request → Option Connection
  | .forwarding _ _ _ connection | .received _ connection _ | .authApplied _ connection _ _
  | .answered _ connection _ _ _ => some connection
  | _ => none

/-- The connection that the next step writes request bytes to. -/
def writesTo : Request → Option Connection
  | .forwarding .writeAll _ _ connection => some connection
  | _ => none

theorem connection_of_writesTo {q : Request} {c : Connection} (h : q.writesTo = some c) :
    q.connection = some c := by
  unfold writesTo at h
  split at h
  · exact h
  · exact absurd h (by simp)

/-- The two halves of `active_session`, taken without a step of another task in between. -/
theorem resolve_eq_activeSession (proxy : ProxyState) (st : Stores) (frame : List UInt8) :
    ((Request.readCurrent frame).step proxy st .readCurrent).bind
        (fun q => if q.owner.isSome then q.step proxy st .getSession else some q) =
      some (match st.registry.activeSession with
        | some session => .lookupConnection frame session
        | none => .failed (.pipeline .sessionNotFound)) := by
  unfold InMemorySessionRegistry.activeSession
  simp only [step]
  cases hc : st.registry.current.lock with
  | none => rfl
  | some current =>
    cases current with
    | none => rfl
    | some id =>
      change (match st.registry.getSession id with
        | some session => some (Request.lookupConnection frame session)
        | none => some (.failed (.pipeline .sessionNotFound))) =
        some (match st.registry.getSession id with
          | some session => .lookupConnection frame session
          | none => .failed (.pipeline .sessionNotFound))
      cases st.registry.getSession id <;> rfl

def isEnded : Request → Bool
  | .failed _ | .panicked => true
  | _ => false

theorem step_of_isEnded {proxy : ProxyState} {st : Stores} {q : Request} (h : q.isEnded = true)
    (e : RequestEvent) : q.step proxy st e = none := by
  unfold isEnded at h
  split at h
  · rfl
  · rfl
  · exact absurd h (by simp)

theorem owner_of_isEnded {q : Request} (h : q.isEnded = true) :
    q.owner = none ∧ q.session = none ∧ q.connection = none := by
  unfold isEnded at h
  split at h
  · exact ⟨rfl, rfl, rfl⟩
  · exact ⟨rfl, rfl, rfl⟩
  · exact absurd h (by simp)

theorem owner_of_session {q : Request} {session : Session} (h : q.session = some session) :
    q.owner = some session.id := by
  unfold Request.session at h
  split at h <;> simp_all [owner]

/-- A request takes its owner, its session and its connection from the stores, one per step, and
then keeps them until it ends. -/
inductive Change (st : Stores) : Request → Request → Prop where
  | ends {q q' : Request} (h : q'.isEnded = true) : Change st q q'
  | admits {frame : List UInt8} : Change st .idle (.readCurrent frame)
  | keeps {q q' : Request} (h : q'.owner = q.owner) (hs : q'.session = q.session)
      (hc : q'.connection = q.connection) : Change st q q'
  | reads {frame : List UInt8} {id : SessionId} (h : st.registry.current.value = some id) :
    Change st (.readCurrent frame) (.getSession frame id)
  | finds {frame : List UInt8} {id : SessionId} {session : Session}
      (h : st.registry.sessions.value.lookup id = some session) :
    Change st (.getSession frame id) (.lookupConnection frame session)
  | connects {frame : List UInt8} {session : Session} {entry : TunnelEntry}
      (h : st.tunnels.inner.value.lookup session.id = some entry) :
    Change st (.lookupConnection frame session) (.forwarding .openBi frame session entry.connection)

private theorem change_failed {st : Stores} {q q' : Request} {e : ProxyError}
    (h : some (failed e) = some q') : Change st q q' := by
  have hq := Option.some.inj h
  rw [← hq]
  exact .ends rfl

private theorem change_acceptRequest (st : Stores) (proxy : ProxyState) (request : PublicRequest) :
    Change st .idle (acceptRequest proxy request) := by
  unfold acceptRequest
  split
  · exact .ends rfl
  · split
    · exact .ends rfl
    · exact .admits

private theorem change_receive (st : Stores) (frame : List UInt8) (session : Session)
    (connection : Connection) (bytes : Option (List UInt8)) :
    Change st (.forwarding .readToEnd frame session connection)
      (receive session connection bytes) := by
  unfold receive
  split
  · exact .ends rfl
  · split
    · exact .ends rfl
    · exact .keeps rfl rfl rfl

theorem step_change {proxy : ProxyState} {st : Stores} {q q' : Request} {e : RequestEvent}
    (hr : st.registry.Healthy) (ht : st.tunnels.inner.poisoned = false)
    (h : q.step proxy st e = some q') : Change st q q' := by
  unfold step at h
  split at h
  · have hq := Option.some.inj h
    rw [← hq]
    exact change_acceptRequest st proxy _
  · rw [Mutex.lock_eq_some hr.current] at h
    split at h
    · rename_i owner hc
      have hq := Option.some.inj h
      rw [← hq]
      exact .reads (Option.some.inj hc)
    · exact change_failed h
  · rw [InMemorySessionRegistry.getSession_eq hr] at h
    split at h
    · rename_i session hs
      have hq := Option.some.inj h
      rw [← hq]
      exact .finds hs
    · exact change_failed h
  · rw [TunnelMap.connection_eq ht] at h
    split at h
    · exact change_failed h
    · exact change_failed h
    · rename_i connection hc
      obtain ⟨entry, hentry, hconn⟩ := Option.map_eq_some_iff.mp (Option.some.inj hc)
      have hq := Option.some.inj h
      rw [← hq, ← hconn]
      exact .connects hentry
  -- The three writes to the tunnel.
  iterate 3
    · split_ifs at h
      · have hq := Option.some.inj h
        rw [← hq]
        exact .keeps rfl rfl rfl
      · exact change_failed h
  · have hq := Option.some.inj h
    rw [← hq]
    exact change_receive st _ _ _ _
  · split_ifs at h
    rw [TunnelMap.authMode_eq ht] at h
    have hq := Option.some.inj h
    rw [← hq]
    exact .keeps rfl rfl rfl
  · split_ifs at h
    rw [TunnelMap.erudaDisabled_eq ht] at h
    have hq := Option.some.inj h
    rw [← hq]
    exact .keeps rfl rfl rfl
  · exact absurd h (by simp)

/-- Resolving a request fixes the session that owns the host at that moment, if there is one. -/
theorem step_readCurrent {proxy : ProxyState} {st : Stores} {q q' : Request}
    (hr : st.registry.Healthy) (h : q.step proxy st .readCurrent = some q') :
    (∃ id, st.registry.current.value = some id ∧ q'.owner = some id) ∨ q'.isEnded = true := by
  unfold step at h
  split at h <;> try contradiction
  rw [Mutex.lock_eq_some hr.current] at h
  split at h
  · rename_i owner hc
    rw [← Option.some.inj h]
    exact Or.inl ⟨owner, Option.some.inj hc, rfl⟩
  · rw [← Option.some.inj h]
    exact Or.inr rfl

/-- `TunnelNotFound` means that the session of the request has no tunnel at that moment. -/
theorem step_tunnelNotFound {proxy : ProxyState} {st : Stores} {q : Request}
    (ht : st.tunnels.inner.poisoned = false)
    (h : q.step proxy st .lookupConnection = some (forwardFailed .tunnelNotFound)) :
    ∃ session, q.session = some session ∧ st.tunnels.inner.value.lookup session.id = none := by
  unfold step at h
  split at h <;> try contradiction
  rename_i frame session _
  rw [TunnelMap.connection_eq ht] at h
  cases hlookup : st.tunnels.inner.value.lookup session.id with
  | none => exact ⟨session, rfl, hlookup⟩
  | some entry =>
    rw [hlookup] at h
    exact absurd h (by simp [forwardFailed])

/-- The request is through with the stores, with a response or without one. -/
def isDone : Request → Bool
  | .answered .. | .failed _ | .panicked => true
  | _ => false

theorem step_of_isDone {proxy : ProxyState} {st : Stores} {q : Request} (h : q.isDone = true)
    (e : RequestEvent) : q.step proxy st e = none := by
  unfold isDone at h
  split at h
  · rfl
  · rfl
  · rfl
  · exact absurd h (by simp)

theorem step_readAuthMode {proxy : ProxyState} {st : Stores} {session : Session}
    {connection : Connection} {response : HttpResponseData} {q : Request} {order : TunnelMap.Order}
    (ht : st.tunnels.inner.poisoned = false)
    (h : (received session connection response).step proxy st (.readAuthMode order) = some q) :
    order.toFinmap = st.tunnels.inner.value ∧
      ∃ auth, auth = ((IterationOrder.first order).map TunnelEntry.auth).getD default ∧
        q = .authApplied session connection auth (applyAuthMode auth response) := by
  simp only [step, TunnelMap.authMode_eq ht] at h
  split_ifs at h with ho
  exact ⟨ho, _, rfl, (Option.some.inj h).symm⟩

theorem step_readErudaDisabled {proxy : ProxyState} {st : Stores} {session : Session}
    {connection : Connection} {auth : AuthMode} {response : HttpResponseData} {q : Request}
    {order : TunnelMap.Order} (ht : st.tunnels.inner.poisoned = false)
    (h : (authApplied session connection auth response).step proxy st (.readErudaDisabled order) =
      some q) :
    order.toFinmap = st.tunnels.inner.value ∧
      ∃ disabled, disabled = ((IterationOrder.first order).map TunnelEntry.noEruda).getD false ∧
        q = .answered session connection auth disabled (applyEruda proxy disabled response) := by
  simp only [step, TunnelMap.erudaDisabled_eq ht] at h
  split_ifs at h with ho
  exact ⟨ho, _, rfl, (Option.some.inj h).symm⟩

/-- Between its two reads a request only waits for the second. -/
theorem isDone_of_step_authApplied {proxy : ProxyState} {st : Stores} {session : Session}
    {connection : Connection} {auth : AuthMode} {response : HttpResponseData} {q : Request}
    {e : RequestEvent} (ht : st.tunnels.inner.poisoned = false)
    (h : (authApplied session connection auth response).step proxy st e = some q) :
    q.isDone = true := by
  cases e with
  | readErudaDisabled order =>
    obtain ⟨-, disabled, -, hq⟩ := step_readErudaDisabled ht h
    rw [hq]
    rfl
  | _ => exact absurd h (by simp [step])

end Request
end Mobilink.Server
