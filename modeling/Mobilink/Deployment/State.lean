import Mobilink.Cli.Tunnel
import Mobilink.Library.Transition
import Mobilink.Server.ProxyRequest

/-! One server with any number of CLI connections and public requests. Every step is one step of one
party, so a run is an interleaving of all of them. -/
namespace Mobilink.Deployment
open Mobilink.Core Mobilink.Server

structure State where
  stores : Stores
  /-- Every id that `SessionId::new` has returned. -/
  drawn : List SessionId
  tasks : Connection → Option Task
  links : Connection → Link
  clis : Connection → Option Cli.Handshake
  requests : ℕ → Request

/-- A connection comes from a CLI with its options, or from a peer that speaks QUIC but is none. -/
inductive Event where
  | connect (c : Connection) (cli : Option ClientMessage)
  | stranger (c : Connection) (bytes : List UInt8)
  | cli (c : Connection) (e : Cli.HandshakeEvent)
  | task (c : Connection) (e : TaskEvent)
  | request (r : ℕ) (e : RequestEvent)

def init (publicUrl : String) : State where
  stores := ⟨.new publicUrl, .new⟩
  drawn := []
  tasks _ := none
  links _ := ⟨none, none⟩
  clis _ := none
  requests _ := .idle

/-- The ids that a step of a task draws. -/
def draws : TaskEvent → List SessionId
  | .handleHello drawn => [drawn]
  | _ => []

/-- A drawn id is fresh, or it is that of a session still open, which the registry refuses. -/
def Fresh (s : State) (e : TaskEvent) : Prop :=
  ∀ id ∈ draws e, id ∈ s.drawn → id ∈ s.stores.registry.sessions.value

instance (s : State) (e : TaskEvent) : Decidable (Fresh s e) :=
  inferInstanceAs (Decidable (∀ id ∈ draws e, id ∈ s.drawn → id ∈ s.stores.registry.sessions.value))

def State.withTask (s : State) (c : Connection) (e : TaskEvent) (out : Stores × Link × Task) :
    State :=
  { s with
    stores := out.1
    drawn := draws e ++ s.drawn
    links := Function.update s.links c out.2.1
    tasks := Function.update s.tasks c (some out.2.2) }

def State.withCli (s : State) (c : Connection) (out : Link × Cli.Handshake) : State :=
  { s with
    links := Function.update s.links c out.1
    clis := Function.update s.clis c (some out.2) }

def State.withRequest (s : State) (r : ℕ) (q : Request) : State :=
  { s with requests := Function.update s.requests r q }

@[simp] theorem requests_withRequest_self (s : State) (r : ℕ) (q : Request) :
    (s.withRequest r q).requests r = q := by
  simp [State.withRequest]

theorem requests_withRequest_ne (s : State) {r r' : ℕ} (h : r ≠ r') (q : Request) :
    (s.withRequest r' q).requests r = s.requests r := by
  simp [State.withRequest, Function.update_of_ne h]

def step (proxy : ProxyState) (s : State) : Event → Option State
  | .connect c cli =>
    if s.tasks c = none then
      some { s with
        tasks := Function.update s.tasks c (some .incoming)
        clis := Function.update s.clis c (cli.map (Cli.Handshake.pending .connect)) }
    else none
  | .stranger c bytes =>
    if s.clis c = none ∧ s.tasks c ≠ none ∧ (s.links c).hello = none then
      some { s with
        links := Function.update s.links c { s.links c with hello := some ⟨bytes, true⟩ } }
    else none
  | .cli c e =>
    (s.clis c).bind fun cli => (cli.step c (s.links c) e).map (s.withCli c)
  | .task c e =>
    if Fresh s e then
      (s.tasks c).bind fun t => (t.step c s.stores (s.links c) e).map (s.withTask c e)
    else none
  | .request r e =>
    ((s.requests r).step proxy s.stores e).map (s.withRequest r)

/-- `proxy.publicUrl` and the registry's base URL are both the configured public URL. -/
def system (proxy : ProxyState) : Transition.System State Event :=
  ⟨init proxy.publicUrl, step proxy⟩

/-- The task of `c` opened the session `created` for the `Hello` it read, and stands at `phase`. -/
def Opened (s : State) (c : Connection) (phase : Phase) (hello : ClientMessage)
    (created : ServerMessage) : Prop :=
  s.tasks c = some (.opened phase hello created)

/-- The `Hello` that created the session `id` arrived on `c`. -/
def Announced (s : State) (id : SessionId) (c : Connection) (hello : ClientMessage) : Prop :=
  ∃ phase created, Opened s c phase hello created ∧ created.sessionId = id

/-- Everything that one step can be. -/
inductive Move (proxy : ProxyState) (s : State) : Event → State → Prop where
  | connect {c : Connection} (cli : Option ClientMessage) (h : s.tasks c = none) :
    Move proxy s (.connect c cli) { s with
      tasks := Function.update s.tasks c (some .incoming)
      clis := Function.update s.clis c (cli.map (Cli.Handshake.pending .connect)) }
  | stranger {c : Connection} (bytes : List UInt8) (hcli : s.clis c = none)
      (htask : s.tasks c ≠ none) (hlink : (s.links c).hello = none) :
    Move proxy s (.stranger c bytes) { s with
      links := Function.update s.links c { s.links c with hello := some ⟨bytes, true⟩ } }
  | cli {c : Connection} {e : Cli.HandshakeEvent} {cli : Cli.Handshake} {out : Link × Cli.Handshake}
      (hcli : s.clis c = some cli) (h : cli.step c (s.links c) e = some out) :
    Move proxy s (.cli c e) (s.withCli c out)
  | task {c : Connection} {e : TaskEvent} {t : Task} {out : Stores × Link × Task}
      (hfresh : Fresh s e) (htask : s.tasks c = some t)
      (h : t.step c s.stores (s.links c) e = some out) :
    Move proxy s (.task c e) (s.withTask c e out)
  | request {r : ℕ} {e : RequestEvent} {q : Request}
      (h : (s.requests r).step proxy s.stores e = some q) :
    Move proxy s (.request r e) (s.withRequest r q)

theorem move_of_step {proxy : ProxyState} {s s' : State} {ev : Event}
    (h : step proxy s ev = some s') : Move proxy s ev s' := by
  cases ev with
  | connect c cli =>
    simp only [step] at h
    split_ifs at h with hc
    rw [← Option.some.inj h]
    exact .connect cli hc
  | stranger c bytes =>
    simp only [step] at h
    split_ifs at h with hc
    rw [← Option.some.inj h]
    exact .stranger bytes hc.1 hc.2.1 hc.2.2
  | cli c e =>
    obtain ⟨cli, hcli, h'⟩ := Option.bind_eq_some_iff.mp h
    obtain ⟨out, hout, hs⟩ := Option.map_eq_some_iff.mp h'
    rw [← hs]
    exact .cli hcli hout
  | task c e =>
    simp only [step] at h
    split_ifs at h with hfresh
    obtain ⟨t, ht, h'⟩ := Option.bind_eq_some_iff.mp h
    obtain ⟨out, hout, hs⟩ := Option.map_eq_some_iff.mp h'
    rw [← hs]
    exact .task hfresh ht hout
  | request r e =>
    obtain ⟨q, hq, hs⟩ := Option.map_eq_some_iff.mp h
    rw [← hs]
    exact .request hq

/-- A step leaves the request `r` where it is, or is a step of that request. -/
theorem Move.request_cases {proxy : ProxyState} {s s' : State} {ev : Event}
    (hm : Move proxy s ev s') (r : ℕ) :
    s'.requests r = s.requests r ∨
      ∃ e, (s.requests r).step proxy s.stores e = some (s'.requests r) := by
  cases hm with
  | connect _ _ => exact Or.inl rfl
  | stranger _ _ _ _ => exact Or.inl rfl
  | cli _ _ => exact Or.inl rfl
  | task _ _ _ => exact Or.inl rfl
  | @request r' e q hstep =>
    by_cases hr : r = r'
    · subst hr
      exact Or.inr ⟨e, by rw [hstep, requests_withRequest_self]⟩
    · exact Or.inl (requests_withRequest_ne s hr q)

/-- A step of the request `r` is what `proxy_handler` does there. -/
theorem step_request {proxy : ProxyState} {s s' : State} {r : ℕ} {e : RequestEvent}
    (h : (system proxy).step s (.request r e) = some s') :
    (s.requests r).step proxy s.stores e = some (s'.requests r) := by
  obtain ⟨q, hq, hs⟩ := Option.map_eq_some_iff.mp h
  rw [hq, ← hs, requests_withRequest_self]

/-- A task has opened at most one session, and stands at one phase of it. -/
theorem Opened.unique {s : State} {c : Connection} {p p' : Phase} {hello hello' : ClientMessage}
    {created created' : ServerMessage} (ho : Opened s c p hello created)
    (ho' : Opened s c p' hello' created') : p = p' ∧ hello = hello' ∧ created = created' := by
  have heq := Option.some.inj (ho.symm.trans ho')
  simpa only [Task.opened.injEq] using heq

theorem opened_withTask_self {s : State} {c : Connection} {e : TaskEvent}
    {out : Stores × Link × Task} {p : Phase} {hello : ClientMessage} {created : ServerMessage} :
    Opened (s.withTask c e out) c p hello created ↔ out.2.2 = .opened p hello created := by
  simp [Opened, State.withTask]

theorem opened_withTask_ne {s : State} {c c' : Connection} (h : c' ≠ c) {e : TaskEvent}
    {out : Stores × Link × Task} {p : Phase} {hello : ClientMessage} {created : ServerMessage} :
    Opened (s.withTask c e out) c' p hello created ↔ Opened s c' p hello created := by
  simp [Opened, State.withTask, Function.update_of_ne h]

/-- After a step of the task of `c`, an open task is the one that the step left or an old one. -/
theorem Opened.withTask_cases {s : State} {c c' : Connection} {e : TaskEvent}
    {out : Stores × Link × Task} {p : Phase} {hello : ClientMessage} {created : ServerMessage}
    (ho : Opened (s.withTask c e out) c' p hello created) :
    (c' = c ∧ out.2.2 = .opened p hello created) ∨ (c' ≠ c ∧ Opened s c' p hello created) := by
  by_cases hc : c' = c
  · subst hc
    exact Or.inl ⟨rfl, opened_withTask_self.mp ho⟩
  · exact Or.inr ⟨hc, (opened_withTask_ne hc).mp ho⟩

/-- A new connection has no session yet. -/
theorem opened_connect {s : State} {c : Connection} (hc : s.tasks c = none) {c' : Connection}
    {p : Phase} {hello : ClientMessage} {created : ServerMessage}
    {clis : Connection → Option Cli.Handshake} :
    Opened { s with tasks := Function.update s.tasks c (some .incoming), clis } c' p hello created ↔
      Opened s c' p hello created := by
  unfold Opened
  by_cases he : c' = c
  · subst he
    simp [hc]
  · simp [Function.update_of_ne he]

/-! ### Runs of one connection -/

/-- A CLI connects and its handshake succeeds. -/
def handshake (c : Connection) (hello : ClientMessage) (drawn : SessionId) : List Event :=
  [.connect c (some hello), .cli c ⟨.connect, true⟩, .cli c ⟨.openBi, true⟩,
    .cli c ⟨.sendHello, true⟩, .cli c ⟨.finishHello, true⟩, .task c (.incoming true),
    .task c (.acceptBi true), .task c (.readHello true), .task c (.handleHello drawn),
    .task c .insertTunnel, .task c (.sendCreated true), .task c (.finishSend true),
    .cli c ⟨.readCreated, true⟩]

/-- The connection closes and its task cleans up. -/
def disconnect (c : Connection) : List Event :=
  [.task c .connectionClosed, .task c .removeTunnel, .task c .closeSession]

/-- A request is resolved and sent, up to the wait for its response. -/
def forward (r : ℕ) (request : PublicRequest) : List Event :=
  [.request r (.start request), .request r .readCurrent, .request r .getSession,
    .request r .lookupConnection, .request r (.openBi true), .request r (.writeAll true),
    .request r (.finish true)]

end Mobilink.Deployment
