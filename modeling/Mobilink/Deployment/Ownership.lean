import Mobilink.Deployment.Routing

/-! Whether the session that owns the host can be forwarded to: the moments at which the registry
knows a session that the tunnel map does not. -/
namespace Mobilink.Deployment
open Mobilink.Core Mobilink.Server

/-- The session that owns the host has a connection in the tunnel map. -/
def OwnerHasTunnel (s : State) : Prop :=
  ∀ session, s.stores.registry.activeSession = some session →
    ∃ c, s.stores.tunnels.connection session.id = some (some c)

/-- The task of the owner stands between `open_session` and the insertion of its tunnel, or between
the removal of its tunnel and `close_session`. -/
def OwnerBetweenStores (s : State) : Prop :=
  ∃ c p hello created, Opened s c p hello created ∧ current s = some created.sessionId ∧
    (p = .insertTunnel ∨ p = .closeSession)

variable {baseUrl : String} {s : State}

/-- The owner of the host is a session that some task has opened and not closed yet. -/
theorem Consistent.current_eq (h : Consistent baseUrl s) {id : SessionId}
    (hid : current s = some id) :
    ∃ c p hello created, Opened s c p hello created ∧ created.sessionId = id ∧
      p.hasSession = true ∧
      s.stores.registry.activeSession = some (sessionFor baseUrl hello id) := by
  obtain ⟨session, hsession⟩ := Option.ne_none_iff_exists'.mp (h.owner id hid)
  obtain ⟨c, p, hello, created, ho, he, hp, heq⟩ := h.sessionOf_eq hsession
  have hactive : s.stores.registry.activeSession = some session := by
    rw [InMemorySessionRegistry.activeSession_eq h.registry]
    change (current s).bind (sessionOf s) = _
    rw [hid, Option.bind_some, hsession]
  rw [heq] at hactive
  exact ⟨c, p, hello, created, ho, he, hp, hactive⟩

theorem Consistent.current_of_activeSession (h : Consistent baseUrl s) {session : Session}
    (hs : s.stores.registry.activeSession = some session) : current s = some session.id := by
  rw [InMemorySessionRegistry.activeSession_eq h.registry] at hs
  obtain ⟨id, hid, hlookup⟩ := Option.bind_eq_some_iff.mp hs
  obtain ⟨c, p, hello, created, -, -, -, heq⟩ := h.sessionOf_eq hlookup
  rw [heq]
  exact hid

theorem Consistent.tunnelOf_owner (h : Consistent baseUrl s) {id : SessionId}
    (hid : current s = some id) : tunnelOf s id ≠ none ↔ ¬ OwnerBetweenStores s := by
  obtain ⟨c, p, hello, created, ho, he, hp, -⟩ := h.current_eq hid
  have htunnel := h.tunnel c p hello created ho
  rw [he] at htunnel
  rw [not_iff_not, htunnel]
  constructor
  · intro hnone
    have hno : p.hasTunnel = false := by
      split_ifs at hnone with hp'
      simpa using hp'
    exact ⟨c, p, hello, created, ho, by rw [he, hid], (Phase.hasTunnel_eq_false_iff hp).mp hno⟩
  · intro hbetween
    obtain ⟨c', p', hello', created', ho', hid', hphase⟩ := hbetween
    have he' : created'.sessionId = id := Option.some.inj (hid'.symm.trans hid)
    have hc := h.distinct id c' c hello' hello ⟨p', created', ho', he'⟩ ⟨p, created, ho, he⟩
    rw [hc] at ho'
    rw [(ho'.unique ho).1] at hphase
    rw [(Phase.hasTunnel_eq_false_iff hp).mpr hphase]
    rfl

theorem Consistent.ownerHasTunnel_iff_current (h : Consistent baseUrl s) :
    OwnerHasTunnel s ↔ ∀ id, current s = some id → tunnelOf s id ≠ none := by
  unfold OwnerHasTunnel
  simp only [TunnelMap.connection_eq h.tunnels, Option.some.injEq, Option.map_eq_some_iff]
  constructor
  · intro hall id hid
    obtain ⟨c, p, hello, created, -, -, -, hactive⟩ := h.current_eq hid
    obtain ⟨conn, entry, hentry, -⟩ := hall _ hactive
    have hentry' : tunnelOf s id = some entry := hentry
    simp [hentry']
  · intro hall session hactive
    have hid := h.current_of_activeSession hactive
    obtain ⟨entry, hentry⟩ := Option.ne_none_iff_exists'.mp (hall session.id hid)
    exact ⟨entry.connection, entry, hentry, rfl⟩

/-- The owner of the host has its tunnel exactly when its task does not stand between the two
stores. A request for it finds no tunnel because the tunnel went away after the request was resolved
exactly when the task did not stand there at that time. -/
theorem ownerHasTunnel_iff (proxy : ProxyState) (hs : (system proxy).Reachable s) :
    (OwnerHasTunnel s ↔ ¬ OwnerBetweenStores s) ∧
    ∀ r s₁ s₂ s₃ events, (system proxy).step s (.request r .readCurrent) = some s₁ →
      (system proxy).run s₁ events = some s₂ →
      (system proxy).step s₂ (.request r .lookupConnection) = some s₃ →
      s₃.requests r = Request.forwardFailed .tunnelNotFound →
      ∃ id, current s = some id ∧ tunnelOf s₂ id = none ∧
        (tunnelOf s id ≠ none ↔ ¬ OwnerBetweenStores s) := by
  have hc := consistent_of_reachable hs
  constructor
  · rw [hc.ownerHasTunnel_iff_current]
    cases hcur : current s with
    | none =>
      have hno : ¬ OwnerBetweenStores s := by
        intro hbetween
        obtain ⟨c, p, hello, created, -, hid, -⟩ := hbetween
        exact absurd (hcur.symm.trans hid) (by simp)
      simp [hno]
    | some id =>
      rw [← hc.tunnelOf_owner hcur]
      simp
  · intro r s₁ s₂ s₃ events hread hrun hlookup hfailed
    have hs₁ := hs.step hread
    have hc₂ := consistent_of_reachable (hs₁.run hrun)
    have hq₃ := step_request hlookup
    rw [hfailed] at hq₃
    obtain ⟨session, hsession, hnone⟩ := Request.step_tunnelNotFound hc₂.tunnels hq₃
    rcases resolvedTo_run hs₁ (resolvedTo_read hs hread) hrun with howner | hend
    · obtain ⟨id, hid, howner⟩ := howner
      have heq : session.id = id :=
        Option.some.inj ((Request.owner_of_session hsession).symm.trans howner)
      rw [heq] at hnone
      exact ⟨id, hid, hnone, hc.tunnelOf_owner hid⟩
    · have hgone := (Request.owner_of_isEnded hend).2.1
      exact absurd (hgone.symm.trans hsession) (by simp)

/-- A second CLI has opened its session and not inserted its tunnel yet. The host is its own, a
request fails, and the first CLI is still connected. -/
theorem owner_without_tunnel_during_takeover :
    let older : SessionId := ⟨⟨Vector.replicate 16 1⟩⟩
    let newer : SessionId := ⟨⟨Vector.replicate 16 2⟩⟩
    let proxy : ProxyState := ⟨id, "https://my-vps.com"⟩
    ∃ s, (system proxy).Reachable s ∧ ¬ OwnerHasTunnel s ∧
      s.requests 0 = Request.forwardFailed .tunnelNotFound ∧ tunnelOf s older ≠ none ∧
      ∃ hello created, Opened s ⟨1⟩ .insertTunnel hello created ∧ created.sessionId = newer := by
  intro older newer proxy
  let events : List Event := handshake ⟨0⟩ ⟨3000, true, .cookie⟩ older ++
    (handshake ⟨1⟩ ⟨4000, false, .passthrough⟩ newer).take 9 ++
    (forward 0 ⟨"GET", "/", none, [], some []⟩).take 4
  have hend : ((system proxy).run (system proxy).init events).map (fun s =>
      (s.stores.registry.activeSession, s.stores.tunnels.connection newer, s.requests 0)) =
      some (some ⟨newer, 4000, "https://my-vps.com"⟩, some none,
        Request.forwardFailed .tunnelNotFound) := by decide
  have htask : ((system proxy).run (system proxy).init events).map
      (fun s => (s.tasks ⟨1⟩, tunnelOf s older)) =
      some (some (.opened .insertTunnel ⟨4000, false, .passthrough⟩ ⟨newer, "https://my-vps.com"⟩),
        some ⟨⟨0⟩, true, .cookie⟩) := by decide
  obtain ⟨s, hrun, hfacts⟩ := Option.map_eq_some_iff.mp hend
  rw [hrun] at htask
  simp only [Prod.mk.injEq] at hfacts
  obtain ⟨hactive, hconn, hfailed⟩ := hfacts
  simp only [Option.map_some, Option.some.injEq, Prod.mk.injEq] at htask
  obtain ⟨hopened, htunnel⟩ := htask
  refine ⟨s, ⟨events, hrun⟩, ?_, hfailed, by simp [htunnel], _, _, hopened, rfl⟩
  intro hall
  obtain ⟨c, hc⟩ := hall _ hactive
  rw [hconn] at hc
  exact absurd hc (by simp)

/-- At the moment of that takeover the owner has no tunnel, and a request resolved then finds none
although no tunnel has gone away. -/
theorem ownerHasTunnel_iff_takeover :
    let newer : SessionId := ⟨⟨Vector.replicate 16 2⟩⟩
    let proxy : ProxyState := ⟨id, "https://my-vps.com"⟩
    ∃ s, (system proxy).Reachable s ∧ current s = some newer ∧ ¬ OwnerHasTunnel s ∧
      tunnelOf s newer = none := by
  intro newer proxy
  let before : List Event :=
    handshake ⟨0⟩ ⟨3000, true, .cookie⟩ ⟨⟨Vector.replicate 16 1⟩⟩ ++
      (handshake ⟨1⟩ ⟨4000, false, .passthrough⟩ newer).take 9 ++
      [.request 0 (.start ⟨"GET", "/", none, [], some []⟩)]
  have hend : ((system proxy).run (system proxy).init
      (before ++
        [.request 0 .readCurrent, .request 0 .getSession, .request 0 .lookupConnection])).map
        (fun s => s.requests 0) = some (Request.forwardFailed .tunnelNotFound) := by decide
  have hstart : ((system proxy).run (system proxy).init before).map
      (fun s => (current s, s.tasks ⟨1⟩)) =
      some (some newer, some (.opened .insertTunnel ⟨4000, false, .passthrough⟩
        ⟨newer, "https://my-vps.com"⟩)) := by decide
  obtain ⟨s₃, hrun, hfailed⟩ := Option.map_eq_some_iff.mp hend
  obtain ⟨s, s₁, hbefore, hread, hrest⟩ := ((system proxy).run_split_iff _ _ _ _ _).mp hrun
  obtain ⟨s₂, hmid, hlookup⟩ := ((system proxy).run_append_iff _ _ [_] [_]).mp hrest
  rw [Transition.System.run_singleton] at hlookup
  rw [hbefore] at hstart
  simp only [Option.map_some, Option.some.injEq, Prod.mk.injEq] at hstart
  obtain ⟨hcurrent, hopened⟩ := hstart
  have hs : (system proxy).Reachable s := ⟨before, hbefore⟩
  have hbetween : OwnerBetweenStores s :=
    ⟨⟨1⟩, .insertTunnel, _, _, hopened, hcurrent, Or.inl rfl⟩
  obtain ⟨hiff, hfind⟩ := ownerHasTunnel_iff proxy hs
  obtain ⟨id, hid, -, htunnel⟩ := hfind 0 s₁ s₂ s₃ _ hread hmid hlookup hfailed
  have hnewer : newer = id := Option.some.inj (hcurrent.symm.trans hid)
  rw [← hnewer] at htunnel
  refine ⟨s, hs, hcurrent, fun hall => hiff.mp hall hbetween, ?_⟩
  by_contra hne
  exact htunnel.mp hne hbetween

end Mobilink.Deployment
