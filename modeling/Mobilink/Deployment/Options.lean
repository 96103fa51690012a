import Mathlib.Data.List.Infix
import Mobilink.Deployment.Ownership

/-! Whose options apply to a response: the options are read off the first entry of the tunnel map,
at the moments at which a request asks for them. -/
namespace Mobilink.Deployment
open Mobilink.Core Mobilink.Server

/-- Whatever order the hash map lists its entries in, the options are those of `hello`. -/
def OptionsAre (s : State) (hello : ClientMessage) : Prop :=
  ∀ order : TunnelMap.Order, order.toFinmap = s.stores.tunnels.inner.value →
    s.stores.tunnels.erudaDisabled order = some hello.noEruda ∧
    s.stores.tunnels.authMode order = some hello.auth

variable {baseUrl : String} {s s' : State}

theorem Consistent.optionsAre_iff (h : Consistent baseUrl s) {id : SessionId}
    (hid : tunnelOf s id ≠ none) (hello : ClientMessage) :
    OptionsAre s hello ↔ ∀ id entry, tunnelOf s id = some entry →
      entry.noEruda = hello.noEruda ∧ entry.auth = hello.auth := by
  unfold OptionsAre
  simp only [TunnelMap.erudaDisabled_eq h.tunnels, TunnelMap.authMode_eq h.tunnels,
    Option.some.injEq]
  constructor
  · intro hall id entry hentry
    obtain ⟨order, horder, hfirst⟩ := IterationOrder.exists_first hentry
    have hread := hall order horder
    rw [hfirst] at hread
    exact hread
  · intro hall order horder
    cases hfirst : IterationOrder.first order with
    | none =>
      have hempty := (IterationOrder.first_eq_none_iff horder).mp hfirst id
      exact absurd hempty hid
    | some entry =>
      obtain ⟨id', hentry⟩ := IterationOrder.lookup_of_first horder hfirst
      exact hall id' entry hentry

/-- The options are those that the owner of the host announced exactly when every CLI whose tunnel
is recorded at that moment announced the same options. -/
theorem optionsAre_owner_iff (proxy : ProxyState) (hs : (system proxy).Reachable s)
    {session : Session} (hactive : s.stores.registry.activeSession = some session)
    (htunnel : tunnelOf s session.id ≠ none) :
    ∃ c hello, Announced s session.id c hello ∧ session.localPort = hello.localPort ∧
      (OptionsAre s hello ↔ ∀ c' p hello' created, Opened s c' p hello' created →
        p.hasTunnel = true → hello'.noEruda = hello.noEruda ∧ hello'.auth = hello.auth) := by
  have hc := consistent_of_reachable hs
  have hid := hc.current_of_activeSession hactive
  obtain ⟨c, p, hello, created, ho, he, -, hactive'⟩ := hc.current_eq hid
  have heq := Option.some.inj (hactive.symm.trans hactive')
  refine ⟨c, hello, ⟨p, created, ho, he⟩, by rw [heq]; rfl, ?_⟩
  rw [hc.optionsAre_iff htunnel]
  constructor
  · intro hall c' p hello' created ho hp
    have hentry := hc.tunnel c' p hello' created ho
    rw [if_pos hp] at hentry
    exact hall created.sessionId _ hentry
  · intro hall id entry hentry
    obtain ⟨c', p, hello', created, ho, -, hp, heq⟩ := hc.tunnelOf_eq hentry
    rw [heq]
    exact hall c' p hello' created ho hp

/-- Two CLIs with different options are connected and nothing is in progress. When the hash map
lists the older one first, the newer one owns the host under the options of the older one. -/
theorem options_of_older_tunnel :
    let older : SessionId := ⟨⟨Vector.replicate 16 1⟩⟩
    let newer : SessionId := ⟨⟨Vector.replicate 16 2⟩⟩
    let hello : ClientMessage := ⟨4000, false, .passthrough⟩
    let order : TunnelMap.Order :=
      ((∅ : TunnelMap.Order).insert newer ⟨⟨1⟩, false, .passthrough⟩).insert older
        ⟨⟨0⟩, true, .cookie⟩
    let proxy : ProxyState := ⟨id, "https://my-vps.com"⟩
    ∃ s, (system proxy).Reachable s ∧
      s.stores.registry.activeSession = some ⟨newer, 4000, "https://my-vps.com"⟩ ∧
      tunnelOf s newer = some ⟨⟨1⟩, false, .passthrough⟩ ∧
      (∃ created, Opened s ⟨0⟩ .awaitClosed ⟨3000, true, .cookie⟩ created) ∧
      (∃ created, Opened s ⟨1⟩ .awaitClosed hello created ∧ created.sessionId = newer) ∧
      order.toFinmap = s.stores.tunnels.inner.value ∧
      s.stores.tunnels.erudaDisabled order = some true ∧
      s.stores.tunnels.authMode order = some .cookie ∧ ¬ OptionsAre s hello := by
  intro older newer hello order proxy
  let events : List Event :=
    handshake ⟨0⟩ ⟨3000, true, .cookie⟩ older ++ handshake ⟨1⟩ hello newer
  have hstores : ((system proxy).run (system proxy).init events).map (fun s =>
      (s.stores.registry.activeSession, tunnelOf s newer,
        decide (order.toFinmap = s.stores.tunnels.inner.value),
        s.stores.tunnels.erudaDisabled order, s.stores.tunnels.authMode order)) =
      some (some ⟨newer, 4000, "https://my-vps.com"⟩, some ⟨⟨1⟩, false, .passthrough⟩, true,
        some true, some .cookie) := by decide
  have htasks : ((system proxy).run (system proxy).init events).map
      (fun s => (s.tasks ⟨0⟩, s.tasks ⟨1⟩)) =
      some (some (.opened .awaitClosed ⟨3000, true, .cookie⟩ ⟨older, "https://my-vps.com"⟩),
        some (.opened .awaitClosed hello ⟨newer, "https://my-vps.com"⟩)) := by decide
  obtain ⟨s, hrun, hfacts⟩ := Option.map_eq_some_iff.mp hstores
  rw [hrun] at htasks
  simp only [Prod.mk.injEq, decide_eq_true_eq] at hfacts
  obtain ⟨hactive, htunnel, horder, heruda, hauth⟩ := hfacts
  simp only [Option.map_some, Option.some.injEq, Prod.mk.injEq] at htasks
  obtain ⟨hfirst, hsecond⟩ := htasks
  refine ⟨s, ⟨events, hrun⟩, hactive, htunnel, ⟨_, hfirst⟩, ⟨_, hsecond, rfl⟩, horder, heruda,
    hauth, ?_⟩
  intro hall
  have hsame := (hall order horder).1
  rw [heruda] at hsame
  exact absurd hsame (by decide)

/-- In that state some order gives the owner other options than it announced. -/
theorem optionsAre_owner_iff_two :
    let newer : SessionId := ⟨⟨Vector.replicate 16 2⟩⟩
    let proxy : ProxyState := ⟨id, "https://my-vps.com"⟩
    ∃ s, (system proxy).Reachable s ∧ ∃ c hello, Announced s newer c hello ∧
      ¬ OptionsAre s hello := by
  intro newer proxy
  let events : List Event :=
    handshake ⟨0⟩ ⟨3000, true, .cookie⟩ ⟨⟨Vector.replicate 16 1⟩⟩ ++
      handshake ⟨1⟩ ⟨4000, false, .passthrough⟩ newer
  have hfacts : ((system proxy).run (system proxy).init events).map (fun s =>
      (s.stores.registry.activeSession, tunnelOf s newer, s.tasks ⟨0⟩, s.tasks ⟨1⟩)) =
      some (some ⟨newer, 4000, "https://my-vps.com"⟩, some ⟨⟨1⟩, false, .passthrough⟩,
        some (.opened .awaitClosed ⟨3000, true, .cookie⟩
          ⟨⟨⟨Vector.replicate 16 1⟩⟩, "https://my-vps.com"⟩),
        some (.opened .awaitClosed ⟨4000, false, .passthrough⟩
          ⟨newer, "https://my-vps.com"⟩)) := by decide
  obtain ⟨s, hrun, hfacts⟩ := Option.map_eq_some_iff.mp hfacts
  simp only [Prod.mk.injEq] at hfacts
  obtain ⟨hactive, htunnel, hfirst, hsecond⟩ := hfacts
  have hs : (system proxy).Reachable s := ⟨events, hrun⟩
  obtain ⟨c, hello, ha, hport, hiff⟩ := optionsAre_owner_iff proxy hs hactive (by simp [htunnel])
  refine ⟨s, hs, c, hello, ha, ?_⟩
  intro hoptions
  have hall := hiff.mp hoptions
  have h₀ := (hall ⟨0⟩ .awaitClosed _ _ hfirst rfl).1
  have h₁ := (hall ⟨1⟩ .awaitClosed _ _ hsecond rfl).1
  exact absurd (h₀.trans h₁.symm) (by decide)

/-! ### Between the two reads of one request -/

/-- At most one tunnel is recorded. -/
def AtMostOneTunnel (s : State) : Prop := s.stores.tunnels.inner.value.keys.card ≤ 1

instance (s : State) : Decidable (AtMostOneTunnel s) :=
  inferInstanceAs (Decidable (s.stores.tunnels.inner.value.keys.card ≤ 1))

/-- What is recorded for some session. -/
def Connected (s : State) (entry : TunnelEntry) : Prop := ∃ id, tunnelOf s id = some entry

/-- The tunnel connected now asks for cookie rewriting exactly if `hello` did; with none connected,
`hello` did not. -/
def CookieAgrees (s : State) (hello : ClientMessage) : Prop :=
  (∀ entry, Connected s entry → (entry.auth = .cookie ↔ hello.auth = .cookie)) ∧
    ((∀ entry, ¬ Connected s entry) → hello.auth ≠ .cookie)

/-- The tunnel connected now has Eruda disabled exactly if `hello` did; with none connected, `hello`
did not. -/
def ErudaAgrees (s : State) (hello : ClientMessage) : Prop :=
  (∀ entry, Connected s entry → entry.noEruda = hello.noEruda) ∧
    ((∀ entry, ¬ Connected s entry) → hello.noEruda = false)

/-- With at most one tunnel every order of the hash map lists that one first, or nothing. -/
theorem AtMostOneTunnel.first_cases (hone : AtMostOneTunnel s) {order : TunnelMap.Order}
    (ho : order.toFinmap = s.stores.tunnels.inner.value) :
    (∃ entry, IterationOrder.first order = some entry ∧ Connected s entry ∧
        ∀ entry', Connected s entry' → entry' = entry) ∨
      (IterationOrder.first order = none ∧ ∀ entry, ¬ Connected s entry) := by
  cases hfirst : IterationOrder.first order with
  | none =>
    right
    refine ⟨rfl, ?_⟩
    intro entry hconn
    obtain ⟨id, hid⟩ := hconn
    have hnone := (IterationOrder.first_eq_none_iff ho).mp hfirst id
    exact absurd (hnone.symm.trans hid) (by simp)
  | some entry =>
    left
    obtain ⟨id, hid⟩ := IterationOrder.lookup_of_first ho hfirst
    refine ⟨entry, rfl, ⟨id, hid⟩, ?_⟩
    intro entry' hconn
    obtain ⟨id', hid'⟩ := hconn
    have hmem : ∀ j e, tunnelOf s j = some e → j ∈ s.stores.tunnels.inner.value.keys := by
      intro j e hj
      rw [Finmap.mem_keys, ← Finmap.lookup_isSome]
      have hj' : s.stores.tunnels.inner.value.lookup j = some e := hj
      rw [hj']
      rfl
    have hsame := Finset.card_le_one.mp hone id' (hmem id' entry' hid') id (hmem id entry hid)
    rw [hsame] at hid'
    exact Option.some.inj (hid'.symm.trans hid)

/-- What is read off the first entry is read off the tunnel connected, or off the lack of one. -/
theorem AtMostOneTunnel.first_iff (hone : AtMostOneTunnel s) {order : TunnelMap.Order}
    (ho : order.toFinmap = s.stores.tunnels.inner.value) (P : Option TunnelEntry → Prop) :
    P (IterationOrder.first order) ↔
      (∀ entry, Connected s entry → P (some entry)) ∧ ((∀ entry, ¬ Connected s entry) → P none) := by
  rcases hone.first_cases ho with hsome | hnone
  · obtain ⟨entry, hfirst, hconn, hall⟩ := hsome
    rw [hfirst]
    constructor
    · intro hread
      refine ⟨?_, fun hno => absurd hconn (hno entry)⟩
      intro entry' hconn'
      rw [hall entry' hconn']
      exact hread
    · exact fun h => h.1 entry hconn
  · obtain ⟨hfirst, hno⟩ := hnone
    rw [hfirst]
    constructor
    · exact fun hread => ⟨fun entry hconn => absurd hconn (hno entry), fun _ => hread⟩
    · exact fun h => h.2 hno

theorem AtMostOneTunnel.cookie_iff (hone : AtMostOneTunnel s) {order : TunnelMap.Order}
    (ho : order.toFinmap = s.stores.tunnels.inner.value) (hello : ClientMessage) :
    ((((IterationOrder.first order).map TunnelEntry.auth).getD default = .cookie) ↔
      hello.auth = .cookie) ↔ CookieAgrees s hello := by
  have hfirst := hone.first_iff ho fun entry =>
    (entry.map TunnelEntry.auth).getD default = .cookie ↔ hello.auth = .cookie
  have hdefault : (default : AuthMode) ≠ .cookie := by decide
  rw [hfirst, CookieAgrees]
  simp [hdefault]

theorem AtMostOneTunnel.eruda_iff (hone : AtMostOneTunnel s) {order : TunnelMap.Order}
    (ho : order.toFinmap = s.stores.tunnels.inner.value) (hello : ClientMessage) :
    ((((IterationOrder.first order).map TunnelEntry.noEruda).getD false = false) ↔
      hello.noEruda = false) ↔ ErudaAgrees s hello := by
  have hfirst := hone.first_iff ho fun entry =>
    (entry.map TunnelEntry.noEruda).getD false = false ↔ hello.noEruda = false
  have hbool : ∀ a : Bool, (a = false ↔ hello.noEruda = false) ↔ a = hello.noEruda := by
    intro a
    cases a <;> cases hello.noEruda <;> simp
  rw [hfirst, ErudaAgrees]
  simp [hbool]

/-- Between its two reads a request stays where it is, whatever the others do. -/
theorem authApplied_run {proxy : ProxyState} {r : ℕ} {session : Session} {connection : Connection}
    {auth : AuthMode} {response : HttpResponseData} {events : List Event}
    (hs : (system proxy).Reachable s)
    (h : s.requests r = .authApplied session connection auth response)
    (hrun : (system proxy).run s events = some s') :
    s'.requests r = .authApplied session connection auth response ∨
      (s'.requests r).isDone = true := by
  have hstep : ∀ t ev t', ((system proxy).Reachable t ∧
      (t.requests r = .authApplied session connection auth response ∨
        (t.requests r).isDone = true)) → (system proxy).step t ev = some t' →
      ((system proxy).Reachable t' ∧
      (t'.requests r = .authApplied session connection auth response ∨
        (t'.requests r).isDone = true)) := by
    intro t ev t' ht hev
    obtain ⟨hreach, hq⟩ := ht
    refine ⟨hreach.step hev, ?_⟩
    have hc := consistent_of_reachable hreach
    rcases (move_of_step hev).request_cases r with hsame | hreq
    · rw [hsame]
      exact hq
    · obtain ⟨e, hreq⟩ := hreq
      rcases hq with hwait | hdone
      · rw [hwait] at hreq
        exact Or.inr (Request.isDone_of_step_authApplied hc.tunnels hreq)
      · rw [Request.step_of_isDone hdone] at hreq
        exact absurd hreq (by simp)
  exact (Transition.System.run_preserves hstep ⟨hs, Or.inl h⟩ hrun).2

/-- A response is rewritten as the session it came from announced exactly when, at each of the two
reads, the tunnel connected at that moment (or the lack of one) asks for the same. -/
theorem options_of_response_iff (proxy : ProxyState) (hs : (system proxy).Reachable s) {r : ℕ}
    {session : Session} {connection : Connection} {response : HttpResponseData}
    (hreceived : s.requests r = .received session connection response)
    {order₁ order₂ : TunnelMap.Order} {events : List Event} {s₁ s₂ s₃ : State}
    (hauth : (system proxy).step s (.request r (.readAuthMode order₁)) = some s₁)
    (hrun : (system proxy).run s₁ events = some s₂)
    (heruda : (system proxy).step s₂ (.request r (.readErudaDisabled order₂)) = some s₃)
    (hone : AtMostOneTunnel s) (hone₂ : AtMostOneTunnel s₂) :
    ∃ hello auth disabled, Announced s session.id connection hello ∧
      s₃.requests r = .answered session connection auth disabled
        (applyEruda proxy disabled (applyAuthMode auth response)) ∧
      (((auth = .cookie ↔ hello.auth = .cookie) ∧ (disabled = false ↔ hello.noEruda = false)) ↔
        CookieAgrees s hello ∧ ErudaAgrees s₂ hello) := by
  have hc := consistent_of_reachable hs
  have hs₁ := hs.step hauth
  have hc₂ := consistent_of_reachable (hs₁.run hrun)
  obtain ⟨id, hello, hid, ha⟩ :=
    (routed_of_reachable hs).connection r connection (by rw [hreceived]; rfl)
  have heq : session.id = id := by
    rw [hreceived] at hid
    exact Option.some.inj hid
  rw [← heq] at ha
  have hq₁ := step_request hauth
  rw [hreceived] at hq₁
  obtain ⟨ho₁, auth, hread₁, hself₁⟩ := Request.step_readAuthMode hc.tunnels hq₁
  have hq₃ := step_request heruda
  rcases authApplied_run hs₁ hself₁ hrun with hwait | hdone
  · rw [hwait] at hq₃
    obtain ⟨ho₂, disabled, hread₂, hself₃⟩ := Request.step_readErudaDisabled hc₂.tunnels hq₃
    refine ⟨hello, auth, disabled, ha, hself₃, ?_⟩
    rw [hread₁, hread₂, hone.cookie_iff ho₁, hone₂.eruda_iff ho₂]
  · rw [Request.step_of_isDone hdone] at hq₃
    exact absurd hq₃ (by simp)

/-- A CLI with cookie authentication and no Eruda disconnects after its response was received and
before the options are read: cookies are left alone and Eruda is injected. -/
theorem options_lost_on_disconnect :
    let older : SessionId := ⟨⟨Vector.replicate 16 1⟩⟩
    let hello : ClientMessage := ⟨3000, true, .cookie⟩
    let session : Session := ⟨older, 3000, "https://my-vps.com"⟩
    let response : HttpResponseData := ⟨302, [("set-cookie", "sid=1")], []⟩
    let proxy : ProxyState := ⟨fun r => { r with body := [1] }, "https://my-vps.com"⟩
    ∃ events s, (system proxy).run (system proxy).init events = some s ∧
      (∀ past, past <+: events → ∀ t, (system proxy).run (system proxy).init past = some t →
        AtMostOneTunnel t) ∧
      Announced s older ⟨0⟩ hello ∧
      s.requests 0 = .answered session ⟨0⟩ .passthrough false { response with body := [1] } := by
  intro older hello session response proxy
  let events : List Event := handshake ⟨0⟩ hello older ++
    forward 0 ⟨"GET", "/", none, [], some []⟩ ++ [.request 0 (.readToEnd (Wire.encode response))] ++
    disconnect ⟨0⟩ ++ [.request 0 (.readAuthMode ∅), .request 0 (.readErudaDisabled ∅)]
  have hend : ((system proxy).run (system proxy).init events).map
      (fun s => (s.tasks ⟨0⟩, s.requests 0)) =
      some (some (.opened .returned hello ⟨older, "https://my-vps.com"⟩),
        .answered session ⟨0⟩ .passthrough false { response with body := [1] }) := by decide
  have hone : (events.inits.all fun past =>
      ((system proxy).run (system proxy).init past).all fun t => decide (AtMostOneTunnel t)) =
        true := by decide
  obtain ⟨s, hrun, hfacts⟩ := Option.map_eq_some_iff.mp hend
  simp only [Prod.mk.injEq] at hfacts
  obtain ⟨hopened, hanswered⟩ := hfacts
  refine ⟨events, s, hrun, ?_, ⟨_, _, hopened, rfl⟩, hanswered⟩
  intro past hpast t ht
  have hall := List.all_eq_true.mp hone past ((List.mem_inits past events).mpr hpast)
  rw [ht] at hall
  simpa using hall

/-- With its tunnel gone at both reads, the options no longer agree with what that CLI announced. -/
theorem options_of_response_iff_disconnected :
    let hello : ClientMessage := ⟨3000, true, .cookie⟩
    let proxy : ProxyState := ⟨id, "https://my-vps.com"⟩
    ∃ s s₂, (system proxy).Reachable s ∧ (system proxy).Reachable s₂ ∧ AtMostOneTunnel s ∧
      AtMostOneTunnel s₂ ∧ ¬ (CookieAgrees s hello ∧ ErudaAgrees s₂ hello) := by
  intro hello proxy
  let session : Session := ⟨⟨⟨Vector.replicate 16 1⟩⟩, 3000, "https://my-vps.com"⟩
  let response : HttpResponseData := ⟨200, [], []⟩
  let before : List Event := handshake ⟨0⟩ hello session.id ++
    forward 0 ⟨"GET", "/", none, [], some []⟩ ++ [.request 0 (.readToEnd (Wire.encode response))] ++
    disconnect ⟨0⟩
  have hend : ((system proxy).run (system proxy).init
      (before ++ [.request 0 (.readAuthMode ∅), .request 0 (.readErudaDisabled ∅)])).map
        (fun s => s.requests 0) = some (.answered session ⟨0⟩ .passthrough false response) := by
    decide
  have hstart : ((system proxy).run (system proxy).init before).map
      (fun s => (s.requests 0, s.tasks ⟨0⟩, decide (AtMostOneTunnel s))) =
      some (.received session ⟨0⟩ response,
        some (.opened .returned hello ⟨session.id, session.publicUrl⟩), true) := by decide
  have hmiddle : ((system proxy).run (system proxy).init
      (before ++ [.request 0 (.readAuthMode ∅)])).map (fun s => decide (AtMostOneTunnel s)) =
      some true := by decide
  obtain ⟨s₃, hrun, hanswered⟩ := Option.map_eq_some_iff.mp hend
  obtain ⟨s, s₁, hbefore, hauth, heruda⟩ := ((system proxy).run_split_iff _ _ _ _ _).mp hrun
  rw [Transition.System.run_singleton] at heruda
  have hshort : (system proxy).run (system proxy).init
      (before ++ [.request 0 (.readAuthMode ∅)]) = some s₁ :=
    ((system proxy).run_split_iff _ _ _ _ _).mpr ⟨s, s₁, hbefore, hauth, rfl⟩
  rw [hbefore] at hstart
  rw [hshort] at hmiddle
  simp only [Option.map_some, Option.some.injEq, Prod.mk.injEq, decide_eq_true_eq] at hstart hmiddle
  obtain ⟨hreceived, hopened, hone⟩ := hstart
  have hs : (system proxy).Reachable s := ⟨before, hbefore⟩
  obtain ⟨hello', auth, disabled, ha, hanswer, hiff⟩ :=
    options_of_response_iff proxy hs hreceived hauth ((system proxy).run_nil s₁) heruda hone hmiddle
  obtain ⟨p, created, ho, -⟩ := ha
  obtain ⟨-, hsame, -⟩ := ho.unique hopened
  have hresult := hanswer.symm.trans hanswered
  simp only [Request.answered.injEq] at hresult
  rw [hsame, hresult.2.2.1] at hiff
  refine ⟨s, s₁, hs, hs.step hauth, hone, hmiddle, ?_⟩
  intro hagree
  exact absurd (hiff.mpr hagree).1 (by decide)

end Mobilink.Deployment
