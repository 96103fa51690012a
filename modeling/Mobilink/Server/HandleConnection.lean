import Mobilink.Core.Http
import Mobilink.Server.Registry
import Mobilink.Server.Tunnels

/-! `handle_connection`: the task that serves one CLI connection, cut at every point where it waits
or touches a store that other tasks share. -/
namespace Mobilink.Server
open Mobilink.Core

inductive HandshakeError where
  | sessionCreationFailed
  deriving DecidableEq

/-- `SessionHandshakeHandler::handle_hello`. -/
def handleHello (r : InMemorySessionRegistry) (drawn : SessionId) (localPort : UInt16) :
    InMemorySessionRegistry × Except HandshakeError ServerMessage :=
  match r.openSession drawn localPort with
  | (r, none) => (r, .error .sessionCreationFailed)
  | (r, some session) => (r, .ok ⟨session.id, session.publicUrl⟩)

/-- The two stores that all tasks and requests share. -/
structure Stores where
  registry : InMemorySessionRegistry
  tunnels : TunnelMap

/-- Why a task ended before it created a session. -/
inductive Refusal where
  | notConnected
  | noStream
  | unreadableHello
  | undecodableHello
  | handshakeRefused
  deriving DecidableEq

/-- The `?` through which a task left after its tunnel was recorded. -/
inductive SendFailure where
  | encode
  | writeAll
  | finish
  deriving DecidableEq

/-- Where a task that has created a session stands. -/
inductive Phase where
  | insertTunnel
  | sendCreated
  | finishSend
  | awaitClosed
  | removeTunnel
  | closeSession
  | returned
  | failed (reason : SendFailure)
  deriving DecidableEq

inductive Task where
  | incoming
  | acceptBi
  | readHello
  | handleHello (hello : ClientMessage)
  | opened (phase : Phase) (hello : ClientMessage) (created : ServerMessage)
  | ended (reason : Refusal)
  | panicked
  deriving DecidableEq

/-- What a task waits for, with the answer of the network where there is one. -/
inductive TaskEvent where
  | incoming (ok : Bool)
  | acceptBi (ok : Bool)
  | readHello (ok : Bool)
  | handleHello (drawn : SessionId)
  | insertTunnel
  | sendCreated (ok : Bool)
  | finishSend (ok : Bool)
  | connectionClosed
  | removeTunnel
  | closeSession
  deriving DecidableEq

namespace Task

/-- `recv.read_to_end(MAX_FRAME_BYTES)` and `wire::decode` of a finished stream. -/
def receiveHello (bytes : List UInt8) : Task :=
  match Wire.readToEnd Wire.maxFrameBytes bytes with
  | none => .ended .unreadableHello
  | some bytes =>
    match Wire.decode bytes with
    | none => .ended .undecodableHello
    | some hello => .handleHello hello

/-- The body of `handle_connection` for the connection `c`. -/
def step (c : Connection) (st : Stores) (link : Link) :
    Task → TaskEvent → Option (Stores × Link × Task)
  | .incoming, .incoming ok => some (st, link, if ok then .acceptBi else .ended .notConnected)
  | .acceptBi, .acceptBi ok => some (st, link, if ok then .readHello else .ended .noStream)
  | .readHello, .readHello false => some (st, link, .ended .unreadableHello)
  | .readHello, .readHello true =>
    (Stream.delivered link.hello).map fun bytes => (st, link, receiveHello bytes)
  | .handleHello hello, .handleHello drawn =>
    match Server.handleHello st.registry drawn hello.localPort with
    | (registry, .error _) => some ({ st with registry }, link, .ended .handshakeRefused)
    | (registry, .ok created) =>
      some ({ st with registry }, link, .opened .insertTunnel hello created)
  | .opened .insertTunnel hello created, .insertTunnel =>
    match st.tunnels.insert created.sessionId c hello.noEruda hello.auth with
    | none => some (st, link, .panicked)
    | some tunnels => some ({ st with tunnels }, link, .opened .sendCreated hello created)
  | .opened .sendCreated hello created, .sendCreated ok =>
    match Wire.encode created with
    | none => some (st, link, .opened (.failed .encode) hello created)
    | some bytes =>
      if ok then
        some (st, { link with reply := some ⟨bytes, false⟩ }, .opened .finishSend hello created)
      else some (st, link, .opened (.failed .writeAll) hello created)
  | .opened .finishSend hello created, .finishSend ok =>
    if ok then
      some (st, { link with reply := link.reply.map Stream.finish },
        .opened .awaitClosed hello created)
    else some (st, link, .opened (.failed .finish) hello created)
  | .opened .awaitClosed hello created, .connectionClosed =>
    some (st, link, .opened .removeTunnel hello created)
  | .opened .removeTunnel hello created, .removeTunnel =>
    match st.tunnels.remove created.sessionId with
    | none => some (st, link, .panicked)
    | some tunnels => some ({ st with tunnels }, link, .opened .closeSession hello created)
  | .opened .closeSession hello created, .closeSession =>
    some ({ st with registry := (st.registry.closeSession created.sessionId).1 }, link,
      .opened .returned hello created)
  | _, _ => none

end Task

/-! ### What one step can be -/

namespace Task

/-- Everything that one step of a task can be. -/
inductive Move (c : Connection) (st : Stores) (link : Link) :
    Task → TaskEvent → Stores → Link → Task → Prop where
  | connects (ok : Bool) :
    Move c st link .incoming (.incoming ok) st link
      (if ok then .acceptBi else .ended .notConnected)
  | accepts (ok : Bool) :
    Move c st link .acceptBi (.acceptBi ok) st link (if ok then .readHello else .ended .noStream)
  | breaksOff : Move c st link .readHello (.readHello false) st link (.ended .unreadableHello)
  | reads {bytes : List UInt8} (h : Stream.delivered link.hello = some bytes) :
    Move c st link .readHello (.readHello true) st link (receiveHello bytes)
  | refuses {hello : ClientMessage} {drawn : SessionId}
      (hd : drawn ∈ st.registry.sessions.value) :
    Move c st link (.handleHello hello) (.handleHello drawn) st link (.ended .handshakeRefused)
  | opens {hello : ClientMessage} {drawn : SessionId}
      (hd : drawn ∉ st.registry.sessions.value) :
    Move c st link (.handleHello hello) (.handleHello drawn)
      { st with registry := (st.registry.openSession drawn hello.localPort).1 } link
      (.opened .insertTunnel hello ⟨drawn, st.registry.publicBaseUrl⟩)
  | inserts {hello : ClientMessage} {created : ServerMessage} :
    Move c st link (.opened .insertTunnel hello created) .insertTunnel
      { st with tunnels := ⟨st.tunnels.inner.store (st.tunnels.inner.value.insert created.sessionId
          ⟨c, hello.noEruda, hello.auth⟩)⟩ } link
      (.opened .sendCreated hello created)
  | sends {hello : ClientMessage} {created : ServerMessage} {bytes : List UInt8}
      (h : Wire.encode created = some bytes) :
    Move c st link (.opened .sendCreated hello created) (.sendCreated true) st
      { link with reply := some ⟨bytes, false⟩ } (.opened .finishSend hello created)
  | isStopped {hello : ClientMessage} {created : ServerMessage} :
    Move c st link (.opened .sendCreated hello created) (.sendCreated false) st link
      (.opened (.failed .writeAll) hello created)
  | finishes {hello : ClientMessage} {created : ServerMessage} :
    Move c st link (.opened .finishSend hello created) (.finishSend true) st
      { link with reply := link.reply.map Stream.finish } (.opened .awaitClosed hello created)
  | isUnfinished {hello : ClientMessage} {created : ServerMessage} :
    Move c st link (.opened .finishSend hello created) (.finishSend false) st link
      (.opened (.failed .finish) hello created)
  | seesClose {hello : ClientMessage} {created : ServerMessage} :
    Move c st link (.opened .awaitClosed hello created) .connectionClosed st link
      (.opened .removeTunnel hello created)
  | removes {hello : ClientMessage} {created : ServerMessage} :
    Move c st link (.opened .removeTunnel hello created) .removeTunnel
      { st with tunnels := ⟨st.tunnels.inner.store
          (st.tunnels.inner.value.erase created.sessionId)⟩ } link
      (.opened .closeSession hello created)
  | closes {hello : ClientMessage} {created : ServerMessage} :
    Move c st link (.opened .closeSession hello created) .closeSession
      { st with registry := (st.registry.closeSession created.sessionId).1 } link
      (.opened .returned hello created)

private theorem some_eq {st st' : Stores} {link link' : Link} {t t' : Task}
    (h : some (st, link, t) = some (st', link', t')) : st' = st ∧ link' = link ∧ t' = t := by
  have he := Option.some.inj h
  simp only [Prod.mk.injEq] at he
  exact ⟨he.1.symm, he.2.1.symm, he.2.2.symm⟩

/-- Opening a session either is refused, with nothing changed, or adds a new one. -/
theorem handleHello_cases {r : InMemorySessionRegistry} (h : r.Healthy) (drawn : SessionId)
    (port : UInt16) :
    (drawn ∈ r.sessions.value ∧
        Server.handleHello r drawn port = (r, .error .sessionCreationFailed)) ∨
      (drawn ∉ r.sessions.value ∧
        Server.handleHello r drawn port =
          ((r.openSession drawn port).1, .ok ⟨drawn, r.publicBaseUrl⟩)) := by
  by_cases hd : drawn ∈ r.sessions.value
  · left
    have ho := InMemorySessionRegistry.openSession_duplicate h port hd
    exact ⟨hd, by unfold Server.handleHello; rw [ho]⟩
  · right
    have ho := InMemorySessionRegistry.openSession_new h port hd
    exact ⟨hd, by unfold Server.handleHello; rw [ho]⟩

/-- With healthy stores a step is one of these: `wire::encode` never fails, and no lock panics. -/
theorem step_move {c : Connection} {st st' : Stores} {link link' : Link} {t t' : Task}
    {e : TaskEvent} (hr : st.registry.Healthy) (ht : st.tunnels.inner.poisoned = false)
    (h : t.step c st link e = some (st', link', t')) : Move c st link t e st' link' t' := by
  unfold step at h
  split at h
  · obtain ⟨rfl, rfl, rfl⟩ := some_eq h
    exact .connects _
  · obtain ⟨rfl, rfl, rfl⟩ := some_eq h
    exact .accepts _
  · obtain ⟨rfl, rfl, rfl⟩ := some_eq h
    exact .breaksOff
  · obtain ⟨bytes, hb, h⟩ := Option.map_eq_some_iff.mp h
    obtain ⟨rfl, rfl, rfl⟩ := some_eq (congrArg some h)
    exact .reads hb
  · rename_i hello drawn
    rcases handleHello_cases hr drawn hello.localPort with ⟨hd, hh⟩ | ⟨hd, hh⟩
    · rw [hh] at h
      obtain ⟨rfl, rfl, rfl⟩ := some_eq h
      exact .refuses hd
    · rw [hh] at h
      obtain ⟨rfl, rfl, rfl⟩ := some_eq h
      exact .opens hd
  · rw [TunnelMap.insert_eq ht] at h
    obtain ⟨rfl, rfl, rfl⟩ := some_eq h
    exact .inserts
  · rename_i hello created ok
    rw [Wire.encode_eq] at h
    cases ok with
    | true =>
      obtain ⟨rfl, rfl, rfl⟩ := some_eq h
      exact .sends (Wire.encode_eq created)
    | false =>
      obtain ⟨rfl, rfl, rfl⟩ := some_eq h
      exact .isStopped
  · rename_i hello created ok
    cases ok with
    | true =>
      obtain ⟨rfl, rfl, rfl⟩ := some_eq h
      exact .finishes
    | false =>
      obtain ⟨rfl, rfl, rfl⟩ := some_eq h
      exact .isUnfinished
  · obtain ⟨rfl, rfl, rfl⟩ := some_eq h
    exact .seesClose
  · rw [TunnelMap.remove_eq ht] at h
    obtain ⟨rfl, rfl, rfl⟩ := some_eq h
    exact .removes
  · obtain ⟨rfl, rfl, rfl⟩ := some_eq h
    exact .closes
  · exact absurd h (by simp)

end Task

/-! ### What one step does to the stores -/

namespace Phase

/-- The session of a task in this phase is in the registry. -/
def hasSession : Phase → Bool
  | .returned => false
  | _ => true

/-- The tunnel of a task in this phase is in the tunnel map. -/
def hasTunnel : Phase → Bool
  | .insertTunnel | .closeSession | .returned => false
  | _ => true

end Phase

namespace Task

def isOpened : Task → Bool
  | .opened .. => true
  | _ => false

/-- A task opens a session, inserts its tunnel, removes it and closes the session. Every other
step leaves the stores alone, and leaves what the task has recorded in them as it was. -/
inductive Effect (c : Connection) (st : Stores) : Task → TaskEvent → Stores → Task → Prop where
  | before {t t' : Task} {e : TaskEvent} (h : t.isOpened = false) (h' : t'.isOpened = false) :
    Effect c st t e st t'
  | within {p p' : Phase} {hello : ClientMessage} {created : ServerMessage} {e : TaskEvent}
      (hs : p'.hasSession = p.hasSession) (ht : p'.hasTunnel = p.hasTunnel) :
    Effect c st (.opened p hello created) e st (.opened p' hello created)
  | opens {hello : ClientMessage} {drawn : SessionId}
      (hd : drawn ∉ st.registry.sessions.value) :
    Effect c st (.handleHello hello) (.handleHello drawn)
      { st with registry := (st.registry.openSession drawn hello.localPort).1 }
      (.opened .insertTunnel hello ⟨drawn, st.registry.publicBaseUrl⟩)
  | inserts {hello : ClientMessage} {created : ServerMessage} {e : TaskEvent} :
    Effect c st (.opened .insertTunnel hello created) e
      { st with tunnels := ⟨st.tunnels.inner.store (st.tunnels.inner.value.insert created.sessionId
          ⟨c, hello.noEruda, hello.auth⟩)⟩ }
      (.opened .sendCreated hello created)
  | removes {hello : ClientMessage} {created : ServerMessage} {e : TaskEvent} :
    Effect c st (.opened .removeTunnel hello created) e
      { st with tunnels := ⟨st.tunnels.inner.store
          (st.tunnels.inner.value.erase created.sessionId)⟩ }
      (.opened .closeSession hello created)
  | closes {hello : ClientMessage} {created : ServerMessage} {e : TaskEvent} :
    Effect c st (.opened .closeSession hello created) e
      { st with registry := (st.registry.closeSession created.sessionId).1 }
      (.opened .returned hello created)

theorem isOpened_receiveHello (bytes : List UInt8) : (receiveHello bytes).isOpened = false := by
  unfold receiveHello
  cases Wire.readToEnd Wire.maxFrameBytes bytes with
  | none => rfl
  | some b =>
    dsimp only
    split <;> rfl

theorem step_effect {c : Connection} {st st' : Stores} {link link' : Link} {t t' : Task}
    {e : TaskEvent} (hr : st.registry.Healthy) (ht : st.tunnels.inner.poisoned = false)
    (h : t.step c st link e = some (st', link', t')) : Effect c st t e st' t' := by
  cases step_move hr ht h with
  | connects ok => exact .before rfl (by cases ok <;> rfl)
  | accepts ok => exact .before rfl (by cases ok <;> rfl)
  | breaksOff => exact .before rfl rfl
  | reads _ => exact .before rfl (isOpened_receiveHello _)
  | refuses _ => exact .before rfl rfl
  | opens hd => exact .opens hd
  | inserts => exact .inserts
  | sends _ => exact .within rfl rfl
  | isStopped => exact .within rfl rfl
  | finishes => exact .within rfl rfl
  | isUnfinished => exact .within rfl rfl
  | seesClose => exact .within rfl rfl
  | removes => exact .removes
  | closes => exact .closes

end Task

/-! ### What one step does to the handshake stream -/

/-- A task in this phase has written `SessionCreated`. -/
def Phase.hasSent : Phase → Bool
  | .insertTunnel | .sendCreated | .failed .encode | .failed .writeAll => false
  | _ => true

/-- A task in this phase has seen its connection close. -/
def Phase.sawClose : Phase → Bool
  | .removeTunnel | .closeSession | .returned => true
  | _ => false

namespace Phase

theorem hasSession_of_hasTunnel {p : Phase} (h : p.hasTunnel = true) : p.hasSession = true := by
  cases p with
  | returned => exact absurd h (by decide)
  | _ => rfl

/-- The two phases in which a task has its session in the registry and no tunnel. -/
theorem hasTunnel_eq_false_iff {p : Phase} (h : p.hasSession = true) :
    p.hasTunnel = false ↔ p = .insertTunnel ∨ p = .closeSession := by
  cases p with
  | returned => exact absurd h (by decide)
  | _ => simp [hasTunnel]

/-- Between writing `SessionCreated` and seeing the connection close, a task has its tunnel. -/
theorem hasTunnel_of_hasSent {p : Phase} (hsent : p.hasSent = true) (hopen : p.sawClose = false) :
    p.hasTunnel = true := by
  cases p with
  | insertTunnel => exact absurd hsent (by decide)
  | closeSession => exact absurd hopen (by decide)
  | returned => exact absurd hopen (by decide)
  | _ => rfl

end Phase

namespace Task

def hello : Task → Option ClientMessage
  | .handleHello hello => some hello
  | .opened _ hello _ => some hello
  | _ => none

/-- A task only ever reads the `Hello` that its peer encoded. -/
theorem receiveHello_encode {hello out : ClientMessage} {bytes : List UInt8}
    (hbytes : Wire.encode hello = some bytes) (h : (receiveHello bytes).hello = some out) :
    out = hello := by
  apply Wire.receive_encode hbytes (fun _ => hello.fits)
  unfold receiveHello at h
  cases hread : Wire.readToEnd Wire.maxFrameBytes bytes with
  | none =>
    rw [hread] at h
    exact absurd h (by simp [Task.hello])
  | some b =>
    rw [hread] at h
    dsimp only at h
    cases hdecode : (Wire.decode b : Option ClientMessage) with
    | none =>
      rw [hdecode] at h
      exact absurd h (by simp [Task.hello])
    | some m =>
      rw [hdecode] at h
      rw [Option.bind_some, hdecode]
      exact h

/-- Of the stream, a task reads the `Hello` once and writes the reply once. -/
inductive LinkEffect (link : Link) : Task → Link → Task → Prop where
  | keeps {t t' : Task} (hhello : ∀ hello, t'.hello = some hello → t.hello = some hello)
      (hsent : ∀ p hello created, t = .opened p hello created → p.hasSent →
        ∃ p', t' = .opened p' hello created ∧ p'.hasSent) : LinkEffect link t link t'
  | reads {bytes : List UInt8} (h : Stream.delivered link.hello = some bytes) :
    LinkEffect link .readHello link (receiveHello bytes)
  | sends {hello : ClientMessage} {created : ServerMessage} {bytes : List UInt8}
      (h : Wire.encode created = some bytes) :
    LinkEffect link (.opened .sendCreated hello created) { link with reply := some ⟨bytes, false⟩ }
      (.opened .finishSend hello created)
  | finishes {hello : ClientMessage} {created : ServerMessage} :
    LinkEffect link (.opened .finishSend hello created)
      { link with reply := link.reply.map Stream.finish } (.opened .awaitClosed hello created)

/-- Steps of a task that has not opened a session yet, and does not read its `Hello` either. -/
private theorem LinkEffect.unopened {link : Link} {t t' : Task} (h : t.isOpened = false)
    (hhello : ∀ hello, t'.hello = some hello → t.hello = some hello) :
    LinkEffect link t link t' := by
  apply keeps hhello
  intro p hello created ht
  rw [ht] at h
  exact absurd h (by simp [isOpened])

/-- Steps of an open task that write nothing. -/
private theorem LinkEffect.opened {link : Link} {p p' : Phase} {hello : ClientMessage}
    {created : ServerMessage} (h : p.hasSent → p'.hasSent) :
    LinkEffect link (.opened p hello created) link (.opened p' hello created) := by
  apply keeps
  · exact fun _ hh => hh
  · intro q hello' created' he hq
    simp only [Task.opened.injEq] at he
    obtain ⟨rfl, rfl, rfl⟩ := he
    exact ⟨p', rfl, h hq⟩

theorem step_linkEffect {c : Connection} {st st' : Stores} {link link' : Link} {t t' : Task}
    {e : TaskEvent} (hr : st.registry.Healthy) (ht : st.tunnels.inner.poisoned = false)
    (h : t.step c st link e = some (st', link', t')) : LinkEffect link t link' t' := by
  cases step_move hr ht h with
  | connects ok =>
    apply LinkEffect.unopened rfl
    intro hello hh
    cases ok <;> exact absurd hh (by simp [Task.hello])
  | accepts ok =>
    apply LinkEffect.unopened rfl
    intro hello hh
    cases ok <;> exact absurd hh (by simp [Task.hello])
  | breaksOff => exact .unopened rfl (fun _ hh => hh)
  | reads hb => exact .reads hb
  | refuses _ => exact .unopened rfl (fun _ hh => absurd hh (by simp [Task.hello]))
  | opens _ => exact .unopened rfl (fun _ hh => hh)
  | inserts => exact .opened (by simp [Phase.hasSent])
  | sends hbytes => exact .sends hbytes
  | isStopped => exact .opened (by simp [Phase.hasSent])
  | finishes => exact .finishes
  | isUnfinished => exact .opened (by simp [Phase.hasSent])
  | seesClose => exact .opened (by simp [Phase.hasSent])
  | removes => exact .opened (by simp [Phase.hasSent])
  | closes => exact .opened (by simp [Phase.hasSent])

/-! ### How a task ends -/

/-- The task is over, by `Ok(())` or through one of its `?`. -/
def hasEnded : Task → Bool
  | .ended _ | .panicked | .opened .returned .. | .opened (.failed _) .. => true
  | _ => false

/-- The task left through a `?` after it had recorded its tunnel. -/
def isFailed : Task → Bool
  | .opened (.failed _) .. => true
  | _ => false

/-- The events at which the peer stopped the stream or vanished while the reply was sent. -/
def sendFails (e : TaskEvent) : Prop := e = .sendCreated false ∨ e = .finishSend false

theorem step_of_isFailed {c : Connection} {st : Stores} {link : Link} {t : Task}
    (h : t.isFailed = true) (e : TaskEvent) : t.step c st link e = none := by
  unfold isFailed at h
  split at h
  · rfl
  · exact absurd h (by simp)

theorem isFailed_of_not_isOpened {t : Task} (h : t.isOpened = false) : t.isFailed = false := by
  cases t with
  | opened _ _ _ => exact absurd h (by simp [isOpened])
  | _ => rfl

/-- A step fails the task exactly if the reply could not be sent: `wire::encode` never fails. -/
theorem step_isFailed_iff {c : Connection} {st st' : Stores} {link link' : Link} {t t' : Task}
    {e : TaskEvent} (hr : st.registry.Healthy) (ht : st.tunnels.inner.poisoned = false)
    (h : t.step c st link e = some (st', link', t')) : t'.isFailed = true ↔ sendFails e := by
  cases step_move hr ht h with
  | connects ok => cases ok <;> simp [isFailed, sendFails]
  | accepts ok => cases ok <;> simp [isFailed, sendFails]
  | reads _ => simp [isFailed_of_not_isOpened (isOpened_receiveHello _), sendFails]
  | _ => simp [isFailed, sendFails]

end Task
end Mobilink.Server
