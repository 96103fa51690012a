import Mobilink.Deployment.Handshake

/-! Which developer a public request reaches: what a request has read of the stores, against the
tasks that wrote it, and against the owner of the host at the moment it was resolved. -/
namespace Mobilink.Deployment
open Mobilink.Core Mobilink.Server

/-- Every session and every connection that a request holds were recorded for one `Hello`. -/
structure Routed (baseUrl : String) (s : State) : Prop where
  session : ∀ r session, (s.requests r).session = some session → ∃ c hello,
    Announced s session.id c hello ∧ session = sessionFor baseUrl hello session.id
  connection : ∀ r c, (s.requests r).connection = some c → ∃ id hello,
    (s.requests r).owner = some id ∧ Announced s id c hello

variable {baseUrl : String} {s s' : State}

/-- A step that leaves the requests alone and keeps what the tasks have announced. -/
theorem Routed.frame (h : Routed baseUrl s) (hr : s'.requests = s.requests)
    (ha : ∀ id c hello, Announced s id c hello → Announced s' id c hello) :
    Routed baseUrl s' := by
  constructor
  · intro r session hs
    rw [hr] at hs
    obtain ⟨c, hello, hann, he⟩ := h.session r session hs
    exact ⟨c, hello, ha _ c hello hann, he⟩
  · intro r c hc
    rw [hr] at hc ⊢
    obtain ⟨id, hello, ho, hann⟩ := h.connection r c hc
    exact ⟨id, hello, ho, ha id c hello hann⟩

theorem Routed.withRequest (h : Routed baseUrl s) {r : ℕ} {q : Request}
    (hs : ∀ session, q.session = some session → ∃ c hello,
      Announced s session.id c hello ∧ session = sessionFor baseUrl hello session.id)
    (hc : ∀ c, q.connection = some c → ∃ id hello, q.owner = some id ∧ Announced s id c hello) :
    Routed baseUrl (s.withRequest r q) := by
  constructor
  · intro r' session hr
    by_cases he : r' = r
    · rw [he, requests_withRequest_self] at hr
      exact hs session hr
    · rw [requests_withRequest_ne s he] at hr
      exact h.session r' session hr
  · intro r' c hr
    by_cases he : r' = r
    · rw [he, requests_withRequest_self] at hr ⊢
      exact hc c hr
    · rw [requests_withRequest_ne s he] at hr ⊢
      exact h.connection r' c hr

theorem Routed.request (h : Routed baseUrl s) (hcons : Consistent baseUrl s) {r : ℕ} {q : Request}
    (hchange : Request.Change s.stores (s.requests r) q) : Routed baseUrl (s.withRequest r q) := by
  have hsession := h.session r
  have hconnection := h.connection r
  generalize s.requests r = q₀ at hchange hsession hconnection
  cases hchange with
  | ends hend =>
    obtain ⟨-, hs, hc⟩ := Request.owner_of_isEnded hend
    apply h.withRequest
    · exact fun session hq => absurd (hs.symm.trans hq) (by simp)
    · exact fun c hq => absurd (hc.symm.trans hq) (by simp)
  | admits =>
    apply h.withRequest
    · exact fun session hq => absurd hq (by simp [Request.session])
    · exact fun c hq => absurd hq (by simp [Request.connection])
  | keeps howner hs hc =>
    apply h.withRequest
    · rw [hs]
      exact hsession
    · rw [hc, howner]
      exact hconnection
  | reads _ =>
    apply h.withRequest
    · exact fun session hq => absurd hq (by simp [Request.session])
    · exact fun c hq => absurd hq (by simp [Request.connection])
  | finds hlookup =>
    obtain ⟨c, p, hello, created, ho, he, -, heq⟩ := hcons.sessionOf_eq hlookup
    apply h.withRequest
    · intro session hq
      rw [← Option.some.inj hq, heq]
      exact ⟨c, hello, ⟨p, created, ho, he⟩, rfl⟩
    · exact fun c hq => absurd hq (by simp [Request.connection])
  | connects hlookup =>
    obtain ⟨c, p, hello, created, ho, he, -, heq⟩ := hcons.tunnelOf_eq hlookup
    apply h.withRequest
    · exact hsession
    · intro c' hq
      rw [← Option.some.inj hq, heq]
      exact ⟨_, hello, rfl, p, created, ho, he⟩

theorem Routed.move {proxy : ProxyState} {ev : Event} (h : Routed baseUrl s)
    (hc : Consistent baseUrl s) (hm : Move proxy s ev s') : Routed baseUrl s' := by
  have ha : ∀ id c hello, Announced s id c hello → Announced s' id c hello :=
    fun _ _ _ hann => hann.move hc hm
  cases hm with
  | connect _ _ => exact h.frame rfl ha
  | stranger _ _ _ _ => exact h.frame rfl ha
  | cli _ _ => exact h.frame rfl ha
  | task _ _ _ => exact h.frame rfl ha
  | request hstep => exact h.request hc (Request.step_change hc.registry hc.tunnels hstep)

theorem routed_of_reachable {proxy : ProxyState} (hs : (system proxy).Reachable s) :
    Routed (InMemorySessionRegistry.new proxy.publicUrl).publicBaseUrl s := by
  apply hs.invariant
  · constructor
    · exact fun _ _ hq => absurd hq (by simp [system, init, Request.session])
    · exact fun _ _ hq => absurd hq (by simp [system, init, Request.connection])
  · intro s e t hr hrouted hstep
    exact hrouted.move (consistent_of_reachable hr) (move_of_step hstep)

/-- The request was resolved to a session with `P`, or it has ended without a response. -/
def ResolvedTo (P : SessionId → Prop) (q : Request) : Prop :=
  (∃ id, P id ∧ q.owner = some id) ∨ q.isEnded = true

/-- Once resolved, a request keeps to its owner until it ends. -/
theorem resolvedTo_move {proxy : ProxyState} {ev : Event} {P : SessionId → Prop}
    (hc : Consistent baseUrl s) {r : ℕ} (h : ResolvedTo P (s.requests r))
    (hm : Move proxy s ev s') : ResolvedTo P (s'.requests r) := by
  rcases hm.request_cases r with hsame | hstep
  · rw [hsame]
    exact h
  · obtain ⟨e, hstep⟩ := hstep
    rcases h with howner | hend
    · obtain ⟨id, hP, howner⟩ := howner
      have hchange := Request.step_change hc.registry hc.tunnels hstep
      generalize s.requests r = q₀, s'.requests r = q at hchange howner
      cases hchange with
      | ends hend => exact Or.inr hend
      | admits => exact absurd howner (by simp [Request.owner])
      | keeps hsame _ _ => exact Or.inl ⟨id, hP, hsame.trans howner⟩
      | reads _ => exact absurd howner (by simp [Request.owner])
      | finds hlookup =>
        obtain ⟨c, p, hello, created, -, -, -, heq⟩ := hc.sessionOf_eq hlookup
        rw [heq]
        exact Or.inl ⟨id, hP, howner⟩
      | connects _ => exact Or.inl ⟨id, hP, howner⟩
    · rw [Request.step_of_isEnded hend] at hstep
      exact absurd hstep (by simp)

theorem resolvedTo_run {proxy : ProxyState} {r : ℕ} {P : SessionId → Prop} {events : List Event}
    (hs : (system proxy).Reachable s) (h : ResolvedTo P (s.requests r))
    (hrun : (system proxy).run s events = some s') : ResolvedTo P (s'.requests r) := by
  have hstep : ∀ t ev t', (system proxy).Reachable t ∧ ResolvedTo P (t.requests r) →
      (system proxy).step t ev = some t' →
      (system proxy).Reachable t' ∧ ResolvedTo P (t'.requests r) := by
    intro t ev t' ht hev
    have hcons := consistent_of_reachable ht.1
    exact ⟨ht.1.step hev, resolvedTo_move hcons ht.2 (move_of_step hev)⟩
  exact (Transition.System.run_preserves hstep ⟨hs, h⟩ hrun).2

/-- Reading the owner slot resolves a request to the session that owns the host. -/
theorem resolvedTo_read {proxy : ProxyState} {r : ℕ} (hs : (system proxy).Reachable s)
    (hread : (system proxy).step s (.request r .readCurrent) = some s') :
    ResolvedTo (fun id => current s = some id) (s'.requests r) :=
  Request.step_readCurrent (consistent_of_reachable hs).registry (step_request hread)

/-- Both stores hold for an id what its `Hello` announced, and a request only ever writes to the
connection whose `Hello` created the session that owned the host when the request was resolved. -/
theorem request_reaches_owner (proxy : ProxyState) :
    (∀ s, (system proxy).Reachable s →
      (∀ id, tunnelOf s id ≠ none → sessionOf s id ≠ none) ∧
      (∀ id entry, tunnelOf s id = some entry → ∃ hello,
        Announced s id entry.connection hello ∧
        helloOn (s.links entry.connection) = some hello ∧
        entry.noEruda = hello.noEruda ∧ entry.auth = hello.auth) ∧
      ∀ id session, sessionOf s id = some session → ∃ c hello,
        Announced s id c hello ∧ helloOn (s.links c) = some hello ∧
        session.localPort = hello.localPort) ∧
    ∀ s s₁ s₂ r events c, (system proxy).Reachable s →
      (system proxy).step s (.request r .readCurrent) = some s₁ →
      (system proxy).run s₁ events = some s₂ → (s₂.requests r).writesTo = some c →
      ∃ id hello, current s = some id ∧ Announced s₂ id c hello ∧
        helloOn (s₂.links c) = some hello := by
  constructor
  · intro s hs
    have hc := consistent_of_reachable hs
    have hl := linked_of_reachable hs
    refine ⟨?_, ?_, ?_⟩
    · intro id ht
      obtain ⟨entry, hentry⟩ := Option.ne_none_iff_exists'.mp ht
      obtain ⟨c, p, hello, created, ho, he, hp, -⟩ := hc.tunnelOf_eq hentry
      have hsession := hc.session c p hello created ho
      rw [if_pos (Phase.hasSession_of_hasTunnel hp), he] at hsession
      simp [hsession]
    · intro id entry ht
      obtain ⟨c, p, hello, created, ho, he, -, heq⟩ := hc.tunnelOf_eq ht
      rw [heq]
      exact ⟨hello, ⟨p, created, ho, he⟩, hl.hello c _ hello ho rfl, rfl, rfl⟩
    · intro id session hsession
      obtain ⟨c, p, hello, created, ho, he, -, heq⟩ := hc.sessionOf_eq hsession
      rw [heq]
      exact ⟨c, hello, ⟨p, created, ho, he⟩, hl.hello c _ hello ho rfl, rfl⟩
  · intro s s₁ s₂ r events c hs hread hrun hwrites
    have hs₁ := hs.step hread
    have hs₂ := hs₁.run hrun
    have hlive : (s₂.requests r).isEnded = false := by
      rw [Bool.eq_false_iff]
      intro hend
      have hnone := (Request.owner_of_isEnded hend).2.2
      rw [Request.connection_of_writesTo hwrites] at hnone
      exact absurd hnone (by simp)
    rcases resolvedTo_run hs₁ (resolvedTo_read hs hread) hrun with howner | hend
    · obtain ⟨id, hcurrent, howner⟩ := howner
      obtain ⟨id', hello, hid', ha⟩ :=
        (routed_of_reachable hs₂).connection r c (Request.connection_of_writesTo hwrites)
      have heq : id' = id := Option.some.inj (hid'.symm.trans howner)
      rw [heq] at ha
      obtain ⟨p, created, ho, he⟩ := ha
      have harrived := (linked_of_reachable hs₂).hello c _ hello ho rfl
      exact ⟨id, hello, hcurrent, ⟨p, created, ho, he⟩, harrived⟩
    · rw [hlive] at hend
      exact absurd hend (by simp)

/-- A second CLI takes over the host after a request was resolved: the request still goes to the
first one. -/
theorem request_reaches_owner_takeover :
    let first : Connection := ⟨0⟩
    let older : SessionId := ⟨⟨Vector.replicate 16 1⟩⟩
    let newer : SessionId := ⟨⟨Vector.replicate 16 2⟩⟩
    let proxy : ProxyState := ⟨id, "https://my-vps.com"⟩
    ∃ s, (system proxy).Reachable s ∧ (s.requests 0).writesTo = some first ∧
      current s = some newer ∧ sessionOf s newer ≠ none ∧
      ∃ hello, Announced s older first hello ∧ helloOn (s.links first) = some hello := by
  intro first older newer proxy
  let before : List Event := handshake first ⟨3000, true, .cookie⟩ older ++
    [.request 0 (.start ⟨"GET", "/", none, [], some []⟩)]
  let after : List Event := handshake ⟨1⟩ ⟨4000, false, .passthrough⟩ newer ++
    [.request 0 .getSession, .request 0 .lookupConnection, .request 0 (.openBi true)]
  have hend : ((system proxy).run (system proxy).init
      (before ++ .request 0 .readCurrent :: after)).map
        (fun s => ((s.requests 0).writesTo, current s, tunnelOf s newer)) =
      some (some first, some newer, some ⟨⟨1⟩, false, .passthrough⟩) := by decide
  have howner : ((system proxy).run (system proxy).init before).map current =
      some (some older) := by decide
  obtain ⟨s₂, hrun, hfacts⟩ := Option.map_eq_some_iff.mp hend
  simp only [Prod.mk.injEq] at hfacts
  obtain ⟨hwrites, hcurrent, htunnel⟩ := hfacts
  obtain ⟨s, s₁, hbefore, hread, hafter⟩ := ((system proxy).run_split_iff _ _ _ _ _).mp hrun
  rw [hbefore] at howner
  have hs : (system proxy).Reachable s := ⟨before, hbefore⟩
  have hs₂ : (system proxy).Reachable s₂ := ⟨_, hrun⟩
  obtain ⟨hstores, hwrite⟩ := request_reaches_owner proxy
  obtain ⟨id, hello, hid, ha, harrived⟩ := hwrite s s₁ s₂ 0 after first hs hread hafter hwrites
  have heq : older = id := Option.some.inj ((Option.some.inj howner).symm.trans hid)
  rw [← heq] at ha
  have hsession := (hstores s₂ hs₂).1 newer (by simp [htunnel])
  exact ⟨s₂, hs₂, hwrites, hcurrent, hsession, hello, ha, harrived⟩

end Mobilink.Deployment
