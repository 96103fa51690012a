import Mobilink.Deployment.Progress

/-! Requests about which the network loses nothing: each can be brought to its response without a
loss, as long as its CLI serves it. -/
namespace Mobilink.Deployment.Traffic
open Mobilink.Core Mobilink.Server Mobilink.Cli

variable {η ω : Type*}

/-! ### Where nothing is lost -/

/-- What `forward` has written on the stream of its request. -/
def Sent (q : Request) (x : RequestStream η) : Prop :=
  match q with
  | .forwarding .finish _ _ _ => x.request.isSome = true
  | .forwarding .readToEnd _ _ _ => (Stream.delivered x.request).isSome = true
  | _ => True

theorem sent_of_streamOn_eq_none {q : Request} (h : streamOn q = none) (x : RequestStream η) :
    Sent q x := by
  unfold Sent
  split
  · exact absurd h (by simp [streamOn])
  · exact absurd h (by simp [streamOn])
  · trivial

theorem sent_of_isRelayed {q : Request} (h : isRelayed q = true) (x : RequestStream η) : Sent q x := by
  unfold Sent
  split
  · exact absurd h (by simp [isRelayed])
  · exact absurd h (by simp [isRelayed])
  · trivial

theorem Sent.congr {q : Request} {x x' : RequestStream η} (h : Sent q x)
    (hsame : x'.request = x.request) : Sent q x' := by
  unfold Sent at h ⊢
  rw [hsame]
  exact h

theorem Kept.onStream {q : Request} {e : RequestEvent}
    {stream : Option (Connection × RequestStream η)} (h : ∀ c x, stream = some (c, x) → Kept x)
    (hunwritten : ∀ frame session c c' x, q = .forwarding .writeAll frame session c →
      stream = some (c', x) → x.request = none) {c : Connection} {x : RequestStream η}
    (hx : onStream q e stream = some (c, x)) : Kept x := by
  unfold Traffic.onStream at hx
  split at hx
  · rw [← (Prod.mk.inj (Option.some.inj hx)).2]
    exact .pending rfl (Or.inl rfl)
  · obtain ⟨⟨c₀, x₀⟩, hx₀, heq⟩ := Option.map_eq_some_iff.mp hx
    rw [← (Prod.mk.inj heq).2]
    refine (h c₀ x₀ hx₀).withRequest _ ?_
    intro sent hsent
    exact absurd ((hunwritten _ _ _ c₀ x₀ rfl hx₀).symm.trans hsent) (by simp)
  · obtain ⟨⟨c₀, x₀⟩, hx₀, heq⟩ := Option.map_eq_some_iff.mp hx
    rw [← (Prod.mk.inj heq).2]
    refine (h c₀ x₀ hx₀).withRequest _ ?_
    intro sent hsent
    dsimp only
    rw [hsent]
    rfl
  · exact h c x hx

/-- Nothing about a request has been lost: the server has written what it has got to, and if it has
given up, it was on an answer that it could not take. -/
structure Intact (l : Local η) : Prop where
  sent : ∀ c x, l.stream = some (c, x) → Sent l.request x
  kept : ∀ c x, l.stream = some (c, x) → Kept x
  unread : ∀ error c x, l.request = .failed error → l.stream = some (c, x) →
    ∃ session bytes, Stream.delivered x.response = some bytes ∧
      Request.receive session c (some bytes) = .failed error

section

variable {proxy : ProxyState} {machines : Machines η ω} {world : ω} {server : Deployment.State}
  {l l' : Local η} {s s' : State η ω} {r : ℕ} {c : Connection} {ev : Event}

theorem Sent.advance {q q' : Request} {e : RequestEvent}
    {stream stream' : Option (Connection × RequestStream η)}
    (h : Advance proxy stream q e q' stream') (hsent : ∀ c x, stream = some (c, x) → Sent q x)
    {c : Connection} {x : RequestStream η} (hx : stream' = some (c, x)) : Sent q' x := by
  cases h with
  | ends hended => exact sent_of_streamOn_eq_none (streamOn_of_isEnded hended) x
  | resolves _ _ _ hopen' => exact sent_of_streamOn_eq_none hopen' x
  | opens => trivial
  | writes =>
    obtain ⟨⟨c₀, x₀⟩, hx₀, heq⟩ := Option.map_eq_some_iff.mp hx
    rw [← (Prod.mk.inj heq).2]
    rfl
  | finishes =>
    obtain ⟨⟨c₀, x₀⟩, hx₀, heq⟩ := Option.map_eq_some_iff.mp hx
    obtain ⟨request, hrequest⟩ := Option.isSome_iff_exists.mp (hsent c₀ x₀ hx₀)
    rw [← (Prod.mk.inj heq).2, Sent, hrequest]
    rfl
  | reads _ _ => trivial
  | rewrites _ _ _ _ hq' _ => exact sent_of_isRelayed hq' x

/-- Without a loss a request fails before it has a stream, or on the answer that it reads. -/
theorem failed_of_lossless {st : Stores} {q : Request} {e : RequestEvent} {error : ProxyError}
    (h : q.step proxy st e = some (.failed error)) (hloss : lossOf e = false) :
    streamOn q = none ∨ ∃ frame session c bytes, q = .forwarding .readToEnd frame session c ∧
      e = .readToEnd (some bytes) ∧ Request.receive session c (some bytes) = .failed error := by
  unfold Request.step at h
  split at h
  · exact Or.inl rfl
  · exact Or.inl rfl
  · exact Or.inl rfl
  · exact Or.inl rfl
  · exact Or.inl rfl
  · split_ifs at h with hok
    · exact absurd h (by simp)
    · exact absurd hloss (by simp [lossOf, hok])
  · split_ifs at h with hok
    · exact absurd h (by simp)
    · exact absurd hloss (by simp [lossOf, hok])
  · rename_i frame session c bytes
    cases bytes with
    | none => exact absurd hloss (by simp [lossOf])
    | some bytes => exact Or.inr ⟨frame, session, c, bytes, rfl, rfl, Option.some.inj h⟩
  · split_ifs at h
    split at h <;> exact absurd h (by simp)
  · split_ifs at h
    split at h <;> exact absurd h (by simp)
  · exact absurd h (by simp)

theorem Intact.request (h : Intact l) (hpiped : Piped server l) {e : RequestEvent} {q : Request}
    (hpermits : permits (isOpen server) l.request l.stream e = true)
    (hstep : l.request.step proxy server.stores e = some q) (hloss : lossOf e = false) :
    Intact { l with request := q, stream := onStream l.request e l.stream } := by
  have hadvance := advance_of_step hpermits hstep
  refine ⟨fun c x hx => Sent.advance hadvance h.sent hx,
    fun c x hx => Kept.onStream h.kept hpiped.unwritten hx, ?_⟩
  intro error c x hfailed hx
  dsimp only at hfailed hx
  rw [hfailed] at hstep hadvance
  rw [hadvance.stream_of_isEnded rfl] at hx
  rcases failed_of_lossless hstep hloss with hopen | ⟨frame, session, c', bytes, hq, rfl, hreceive⟩
  · cases hlive : l.request.isEnded with
    | true =>
      rw [Request.step_of_isEnded hlive] at hstep
      exact absurd hstep (by simp)
    | false => exact absurd ((hpiped.unopened hopen hlive).symm.trans hx) (by simp)
  · obtain ⟨y, hy⟩ := hpiped.opened c' (by rw [hq]; rfl)
    obtain ⟨rfl, rfl⟩ := Prod.mk.inj (Option.some.inj (hx.symm.trans hy))
    refine ⟨session, bytes, ?_, hreceive⟩
    simpa [permits, hx] using hpermits

theorem Intact.serve (h : Intact l) {client : HttpClient η}
    (hexchanged : Exchanged proxy client server l)
    {exchange : ω → Outgoing η → ω × Option Reply} {c : Connection} {x x' : RequestStream η}
    {port : UInt16} {e : StreamEvent} {w w' : ω} {new : List (Exchange η)}
    (hx : l.stream = some (c, x)) (hport : servedBy server c = some port)
    (hstep : x.step client exchange port w e = some (w', x', new)) (hloss : streamLossOf e = false)
    (sent : List (Exchange η)) (machines : List Connection) :
    Intact { l with stream := some (c, x'), sent, machines } := by
  refine ⟨?_, ?_, ?_⟩
  · intro c' y hy
    obtain ⟨rfl, rfl⟩ := Prod.mk.inj (Option.some.inj hy)
    exact (h.sent c x hx).congr (RequestStream.request_step hstep)
  · intro c' y hy
    obtain ⟨rfl, rfl⟩ := Prod.mk.inj (Option.some.inj hy)
    exact (h.kept c x hx).step hstep hloss
  · intro error c' y hfailed hy
    obtain ⟨rfl, rfl⟩ := Prod.mk.inj (Option.some.inj hy)
    obtain ⟨session, bytes, hbytes, hreceive⟩ := h.unread error c x hfailed hx
    exact ⟨session, bytes, (hexchanged.served c x port hx hport).delivered_step hstep hbytes, hreceive⟩

theorem Intact.localMove (h : Intact l) (hown : Own proxy machines.client server l)
    (hm : LocalMove proxy machines server r l ev l') (hloss : ev.isLoss = false) : Intact l' := by
  cases hm with
  | preflight _ _ => exact { h with }
  | start hnone _ _ =>
    have hstream := (hown.arrived.fresh hnone).2.1
    refine ⟨?_, ?_, ?_⟩
    · exact fun c x hx => absurd (hstream.symm.trans hx) (by simp)
    · exact fun c x hx => absurd (hstream.symm.trans hx) (by simp)
    · exact fun error c x _ hx => absurd (hstream.symm.trans hx) (by simp)
  | request hpermits hstep => exact h.request hown.piped hpermits hstep hloss
  | serve hx hport hstep => exact h.serve hown.exchanged hx hport hstep hloss _ _
  | @stranger c x bytes hx hcli hresponse =>
    have hnone : servedBy server c = none := by rw [servedBy, hcli, Option.bind_none]
    have htask := (hown.exchanged.unserved c x hx hnone).1
    refine ⟨?_, ?_, ?_⟩
    · intro c' y hy
      obtain ⟨rfl, rfl⟩ := Prod.mk.inj (Option.some.inj hy)
      exact (h.sent c x hx).congr rfl
    · intro c' y hy
      obtain ⟨rfl, rfl⟩ := Prod.mk.inj (Option.some.inj hy)
      exact .pending (by rw [htask]; rfl) (Or.inr rfl)
    · intro error c' y hfailed _
      obtain ⟨session, answer, hanswer, -⟩ := h.unread error c x hfailed hx
      rw [hresponse] at hanswer
      exact absurd hanswer (by simp [Stream.delivered])
  | respond _ _ _ => exact { h with }

/-- No step about the request has been a loss. -/
def Lossless (r : ℕ) (events : List Event) : Prop :=
  ∀ ev ∈ events, ev.request? = some r → ev.isLoss = false

theorem lossless_of_all {events : List Event}
    (h : events.all (fun ev => decide (ev.request? = some r → ev.isLoss = false)) = true) :
    Lossless r events :=
  fun ev hev => of_decide_eq_true (List.all_eq_true.mp h ev hev)

theorem Intact.step (hs : (system proxy machines world).Reachable s) (h : Intact (s.at r))
    (hstep : step proxy machines s ev = some s') (hloss : ev.request? = some r → ev.isLoss = false) :
    Intact (s'.at r) := by
  by_cases hr : ev.request? = some r
  · exact h.localMove (own_of_reachable hs r) (localMove_of_request hstep hr) (hloss hr)
  · rw [at_of_step_ne hstep hr]
    exact h

theorem intact_of_run {events : List Event}
    (hrun : (system proxy machines world).run (system proxy machines world).init events = some s)
    (hlossless : Lossless r events) : Intact (s.at r) := by
  refine Transition.System.run_induction (P := fun past u => Lossless r past → Intact (u.at r)) ?_ ?_
    hrun hlossless
  · intro _
    refine ⟨?_, ?_, ?_⟩ <;> simp [system, init, State.at]
  · intro past u ev u' hpast hu hstep hlossless
    refine (hu fun ev' hev' => hlossless ev' (List.mem_append_left _ hev')).step ⟨past, hpast⟩ hstep ?_
    exact hlossless ev (List.mem_append_right _ (List.mem_singleton_self ev))

/-! ### The CLI that a request waits for -/

/-- The connection that a request is forwarded on, or would find if it were to go on now. -/
def boundFor (server : Deployment.State) : Request → Option Connection
  | .readCurrent _ =>
    (current server).bind fun owner => (tunnelOf server owner).map TunnelEntry.connection
  | .getSession _ owner => (tunnelOf server owner).map TunnelEntry.connection
  | .lookupConnection _ session => (tunnelOf server session.id).map TunnelEntry.connection
  | .forwarding _ _ _ c => some c
  | _ => none

/-- The server has not seen the connection close, and the CLI at its other end is in `serve`. -/
structure Serving (server : Deployment.State) (c : Connection) : Prop where
  unclosed : isOpen server c = true
  served : servedBy server c ≠ none

theorem boundFor_of_isEnded {q : Request} (h : q.isEnded = true) : boundFor server q = none := by
  unfold Request.isEnded at h
  split at h
  · rfl
  · rfl
  · exact absurd h (by simp)

theorem boundFor_receive (session : Session) (c : Connection) (bytes : Option (List UInt8)) :
    boundFor server (Request.receive session c bytes) = none := by
  rcases receive_cases session c bytes with hended | ⟨_, _, -, hreceive⟩
  · exact boundFor_of_isEnded hended
  · rw [hreceive]
    rfl

/-- While the server stands still, a request keeps to the connection that it would find. -/
theorem boundFor_step {baseUrl : String} (hc : Consistent baseUrl server) {q q' : Request}
    {e : RequestEvent} (hq : q ≠ .idle) (h : q.step proxy server.stores e = some q')
    (hbound : boundFor server q' = some c) : boundFor server q = some c := by
  have hends : ∀ {q₁ : Request}, boundFor server q₁ = none → some q₁ = some q' →
      boundFor server q = some c := by
    intro q₁ hnone heq
    rw [← Option.some.inj heq, hnone] at hbound
    exact absurd hbound (by simp)
  unfold Request.step at h
  split at h
  · exact absurd rfl hq
  · rw [Mutex.lock_eq_some hc.registry.current] at h
    split at h
    · rename_i owner hcurrent
      rw [← Option.some.inj h] at hbound
      have howner : current server = some owner := Option.some.inj hcurrent
      rw [boundFor, howner]
      exact hbound
    · exact hends rfl h
  · rw [InMemorySessionRegistry.getSession_eq hc.registry] at h
    split at h
    · rename_i owner _ session hsession
      obtain ⟨_, _, hello, _, -, -, -, rfl⟩ := hc.sessionOf_eq hsession
      rw [← Option.some.inj h] at hbound
      exact hbound
    · exact hends rfl h
  · rw [TunnelMap.connection_eq hc.tunnels] at h
    split at h
    · exact hends rfl h
    · exact hends rfl h
    · rename_i hlookup
      rw [← Option.some.inj h] at hbound
      exact (Option.some.inj hlookup).trans hbound
  -- The three writes to the tunnel.
  iterate 3
    · split_ifs at h
      · rw [← Option.some.inj h] at hbound
        exact hbound
      · exact hends rfl h
  · exact hends (boundFor_receive _ _ _) h
  · split_ifs at h
    split at h <;> exact hends rfl h
  · split_ifs at h
    split at h <;> exact hends rfl h
  · exact absurd h (by simp)

theorem boundFor_localMove {baseUrl : String} (hc : Consistent baseUrl server)
    (hm : LocalMove proxy machines server r l ev l') (hne : l.arrived ≠ none)
    (hbound : boundFor server l'.request = some c) :
    boundFor server l.request = some c := by
  cases hm with
  | preflight hnone _ => exact absurd hnone hne
  | start hnone _ _ => exact absurd hnone hne
  | request hpermits hstep =>
    exact boundFor_step hc (ne_idle_of_permits hpermits hstep) hstep hbound
  | _ => exact hbound

/-! ### A stream on which nothing is lost leads on -/

theorem isSome_step_serve {e : StreamEvent} {x : RequestStream η} {port : UInt16}
    (hx : s.streams r = some (c, x)) (hport : servedBy s.server c = some port)
    (hopen : isOpen s.server c = true)
    (h : (x.step machines.client (machines.exchange c) port s.world e).isSome = true) :
    (step proxy machines s (.serve r e)).isSome = true := by
  obtain ⟨out, hout⟩ := Option.isSome_iff_exists.mp h
  simp only [step, hx, Option.bind_some, hport, hopen, hout, implies_true, if_true]
  rfl

/-- The CLI of a request about which nothing was lost answers, and the request reads the answer. -/
theorem canGoOn_of_reading (hs : (system proxy machines world).Reachable s)
    (hintact : Intact (s.at r)) {frame : List UInt8} {session : Session}
    (hq : s.server.requests r = .forwarding .readToEnd frame session c)
    (hserving : Serving s.server c) : CanGoOn proxy machines s r := by
  obtain ⟨x, hx⟩ := (own_of_reachable hs r).piped.opened c (by rw [State.at, hq]; rfl)
  have hx : s.streams r = some (c, x) := hx
  have hkept := hintact.kept c x hx
  have hfinished : (Stream.delivered x.request).isSome = true := by
    have hwritten := hintact.sent c x hx
    rw [State.at, hq] at hwritten
    exact hwritten
  obtain ⟨sent, hsent⟩ := Option.isSome_iff_exists.mp hfinished
  obtain ⟨port, hport⟩ := Option.ne_none_iff_exists'.mp hserving.served
  cases hended : hasEnded x.task with
  | true =>
    obtain ⟨bytes, hbytes⟩ := Option.isSome_iff_exists.mp (hkept.delivered hended)
    refine .request (e := .readToEnd (some bytes)) rfl ?_ (by rw [hq]; rfl)
    simp [permits, hx, hbytes]
  | false =>
    obtain ⟨e, hloss, hstep⟩ := exists_step machines.client (machines.exchange c) port sent s.world
      (Stream.delivered_eq_some hsent) hended
    exact ⟨.serve r e, rfl, hloss, isSome_step_serve hx hport hserving.unclosed hstep⟩

/-- Nothing about a request that has arrived was lost, and the connection that it is forwarded on, or
would find now, is open and has its CLI in `serve`. -/
structure Attended (s : State η ω) (r : ℕ) : Prop where
  intact : Intact (s.at r)
  arrived : s.arrived r ≠ none
  serving : ∀ c, boundFor s.server (s.server.requests r) = some c → Serving s.server c

theorem Attended.canGoOn (h : Attended s r) (hs : (system proxy machines world).Reachable s)
    (hnone : s.responses r = none) : CanGoOn proxy machines s r := by
  rcases canGoOn_or_forwarding hs h.arrived hnone with hgoes | ⟨stage, frame, session, c, hq⟩
  · exact hgoes
  have hserving := h.serving c (by rw [hq]; rfl)
  have hopen : isOpen s.server c = true := hserving.unclosed
  cases stage with
  | openBi => exact .request (e := .openBi true) rfl (by rw [hq]; exact hopen) (by rw [hq]; rfl)
  | writeAll => exact .request (e := .writeAll true) rfl (by rw [hq]; exact hopen) (by rw [hq]; rfl)
  | finish => exact .request (e := .finish true) rfl (by rw [hq]; exact hopen) (by rw [hq]; rfl)
  | readToEnd => exact canGoOn_of_reading hs h.intact hq hserving

/-- The steps of the request itself leave its CLI where it is. -/
theorem Attended.step (h : Attended s r) (hs : (system proxy machines world).Reachable s)
    (hstep : step proxy machines s ev = some s') (hr : ev.request? = some r)
    (hloss : ev.isLoss = false) : Attended s' r := by
  refine ⟨h.intact.step hs hstep fun _ => hloss, arrived_of_step hstep h.arrived, ?_⟩
  intro c hbound
  have hserver := server_of_request hstep hr
  have hcons := consistent_of_reachable (reachable_server hs)
  rw [hserver, requests_withRequest_self] at hbound
  obtain ⟨hopen, hserved⟩ := h.serving c
    (boundFor_localMove hcons (localMove_of_request hstep hr) h.arrived hbound)
  rw [hserver]
  exact ⟨hopen, hserved⟩

/-- As long as nothing is lost about a request, and the connection that it is forwarded on, or would
find now, is open and has its CLI in `serve`, the request can be brought to a response without a
loss. -/
theorem request_completes {events : List Event}
    (hrun : (system proxy machines world).run (system proxy machines world).init events = some s)
    (hlossless : Lossless r events) (harrived : s.arrived r ≠ none)
    (hserving : ∀ c, boundFor s.server (s.server.requests r) = some c → Serving s.server c) :
    ∃ more t, (system proxy machines world).run s more = some t ∧
      (∀ ev ∈ more, ev.request? = some r ∧ ev.isLoss = false) ∧ t.responses r ≠ none := by
  have hprogress : ∀ s, (system proxy machines world).Reachable s → Attended s r →
      ¬ s.responses r ≠ none → ∃ ev : Event, (ev.request? = some r ∧ ev.isLoss = false) ∧
        ((system proxy machines world).step s ev).isSome = true := by
    intro s hs h hnone
    obtain ⟨ev, hev, hloss, hstep⟩ := h.canGoOn hs (not_not.mp hnone)
    exact ⟨ev, ⟨hev, hloss⟩, hstep⟩
  obtain ⟨more, t, hmore, hown, -, ht⟩ := (ranked_request proxy machines world r).exists_run
    (fun s => Attended s r) (fun s => s.responses r ≠ none)
    (fun ev => ev.request? = some r ∧ ev.isLoss = false) (fun ev hev => by simp [hev.1])
    (fun _ _ _ hs h hev hstep => h.step hs hstep hev.1 hev.2) hprogress ⟨events, hrun⟩
    ⟨intact_of_run hrun hlossless, harrived, hserving⟩ le_rfl
  exact ⟨more, t, hmore, hown, ht⟩

/-- The server has written a request to its CLI, which has not accepted the stream yet. -/
theorem request_completes_written :
    let c : Connection := ⟨0⟩
    let owner : SessionId := ⟨⟨Vector.replicate 16 1⟩⟩
    let traffic := system ⟨id, "https://my-vps.com"⟩ (constantMachines ⟨200, [], [7]⟩) []
    let events := (handshake c ⟨3000, true, .bearer⟩ owner).map Event.server ++
      (replay 0 ⟨"GET", "/", none, [], some []⟩).take 7
    ∃ s more t, traffic.run traffic.init events = some s ∧ s.responses 0 = none ∧
      traffic.run s more = some t ∧ (∀ ev ∈ more, ev.request? = some 0 ∧ ev.isLoss = false) ∧
      t.responses 0 ≠ none := by
  intro c owner traffic events
  have hend : (traffic.run traffic.init events).map (fun s => ((s.arrived 0).isSome,
      (s.responses 0).isNone, boundFor s.server (s.server.requests 0), isOpen s.server c,
      servedBy s.server c)) = some (true, true, some c, true, some 3000) := by
    decide
  obtain ⟨s, hs, hfacts⟩ := Option.map_eq_some_iff.mp hend
  simp only [Prod.mk.injEq, Option.isNone_iff_eq_none] at hfacts
  obtain ⟨harrived, hnone, hbound, hopen, hserved⟩ := hfacts
  have hserving : ∀ c', boundFor s.server (s.server.requests 0) = some c' → Serving s.server c' := by
    intro c' hc'
    obtain rfl : c = c' := Option.some.inj (hbound.symm.trans hc')
    exact ⟨hopen, by simp [hserved]⟩
  obtain ⟨more, t, hmore, hown, ht⟩ := request_completes hs (lossless_of_all (by decide))
    (Option.isSome_iff_ne_none.mp harrived) hserving
  exact ⟨s, more, t, hs, hnone, hmore, hown, ht⟩

end

end Mobilink.Deployment.Traffic
