import Mobilink.Cli.HandleStream
import Mobilink.Deployment.Responses

/-! Every public request is answered, and once: it makes a bounded number of steps, and until its
response is out it can make another one, without a loss if the network loses nothing. -/
namespace Mobilink.Deployment.Traffic
open Mobilink.Core Mobilink.Server Mobilink.Cli

variable {η ω : Type*}

/-! ### The steps that a request has left -/

def requestRank : Request → ℕ
  | .idle => 10
  | .readCurrent _ => 9
  | .getSession _ _ => 8
  | .lookupConnection _ _ => 7
  | .forwarding .openBi _ _ _ => 6
  | .forwarding .writeAll _ _ _ => 5
  | .forwarding .finish _ _ _ => 4
  | .forwarding .readToEnd _ _ _ => 3
  | .received _ _ _ => 2
  | .authApplied _ _ _ _ => 1
  | .answered .. | .failed _ | .panicked => 0

def awaited {α : Type*} : Option α → ℕ
  | none => 1
  | some _ => 0

theorem awaited_le_of_isSome {α β : Type*} {x : Option α} {y : Option β}
    (h : y.isSome = true → x.isSome = true) : awaited x ≤ awaited y := by
  cases x with
  | some x => exact Nat.zero_le _
  | none =>
    cases y with
    | none => exact le_rfl
    | some y => exact absurd (h rfl) (by simp)

/-- A peer that is no CLI may answer once, until something has been written back. -/
def streamRank : Option (Connection × RequestStream η) → ℕ
  | none => redirectLimit + 6
  | some (_, x) => StreamTask.rank x.task + awaited x.response

def Local.rank (l : Local η) : ℕ :=
  awaited l.arrived + requestRank l.request + streamRank l.stream + awaited l.response

theorem requestRank_step {proxy : ProxyState} {st : Stores} {q q' : Request} {e : RequestEvent}
    (h : q.step proxy st e = some q') : requestRank q' < requestRank q := by
  have hless : ∀ {q₁ : Request}, some q₁ = some q' → requestRank q₁ < requestRank q →
      requestRank q' < requestRank q := by
    intro q₁ heq hlt
    rw [← Option.some.inj heq]
    exact hlt
  unfold Request.step at h
  split at h
  · refine hless h ?_
    unfold Request.acceptRequest
    split
    · simp [requestRank]
    · split <;> simp [requestRank]
  · split at h <;> exact hless h (by simp [requestRank])
  · split at h <;> exact hless h (by simp [requestRank])
  · split at h <;> exact hless h (by simp [requestRank, Request.forwardFailed])
  -- The three writes to the tunnel.
  iterate 3
    · split_ifs at h <;> exact hless h (by simp [requestRank, Request.forwardFailed])
  · refine hless h ?_
    unfold Request.receive
    split
    · simp [requestRank, Request.forwardFailed]
    · split <;> simp [requestRank]
  · split_ifs at h
    split at h <;> exact hless h (by simp [requestRank])
  · split_ifs at h
    split at h <;> exact hless h (by simp [requestRank])
  · exact absurd h (by simp)

theorem streamRank_step {client : HttpClient η} {exchange : ω → Outgoing η → ω × Option Reply}
    {port : UInt16} {w w' : ω} {x x' : RequestStream η} {e : StreamEvent} {new : List (Exchange η)}
    (c : Connection) (h : x.step client exchange port w e = some (w', x', new)) :
    streamRank (some (c, x')) < streamRank (some (c, x)) := by
  obtain ⟨htask, hresponse⟩ := RequestStream.rank_step h
  exact Nat.add_lt_add_of_lt_of_le htask (awaited_le_of_isSome hresponse)

theorem streamRank_onStream (q : Request) (e : RequestEvent)
    {stream : Option (Connection × RequestStream η)} (h : streamOn q = none → q.isEnded = false →
      stream = none) : streamRank (onStream q e stream) ≤ streamRank stream := by
  unfold onStream
  split
  · rw [h rfl rfl]
    exact le_rfl
  · cases stream <;> exact le_rfl
  · cases stream <;> exact le_rfl
  · exact le_rfl

section

variable {proxy : ProxyState} {machines : Machines η ω} {world : ω} {server : Deployment.State}
  {l l' : Local η} {s s' : State η ω} {r : ℕ} {ev : Event}

theorem rank_localMove (hpiped : Piped server l) (hm : LocalMove proxy machines server r l ev l') :
    l'.rank < l.rank := by
  cases hm with
  | preflight h _ =>
    simp only [Local.rank, h, awaited]
    omega
  | start h _ hstep =>
    have hless := requestRank_step hstep
    simp only [Local.rank, h, awaited]
    omega
  | @request e q _ hstep =>
    have hless := requestRank_step hstep
    have hstream := streamRank_onStream l.request e hpiped.unopened
    simp only [Local.rank]
    omega
  | @serve c x x' _ _ _ _ _ h _ hstep =>
    have hless := streamRank_step c hstep
    simp only [Local.rank, h]
    omega
  | stranger bytes h _ hnone =>
    simp only [Local.rank, h, streamRank, hnone, awaited]
    omega
  | respond _ _ hnone =>
    simp only [Local.rank, hnone, awaited]
    omega

/-- Each step that is about a request lowers its rank, and no other step changes it. -/
theorem ranked_request (proxy : ProxyState) (machines : Machines η ω) (world : ω) (r : ℕ) :
    Transition.Ranked (system proxy machines world) (fun s n => (s.at r).rank ≤ n) (fun _ => 0)
      fun ev => if decide (ev.request? = some r) then 1 else 0 := by
  constructor
  intro s ev s' n hs hn hstep
  refine ⟨(s'.at r).rank, le_rfl, ?_⟩
  by_cases hr : ev.request? = some r
  · have hless := rank_localMove (own_of_reachable hs r).piped (localMove_of_request hstep hr)
    rw [if_pos (decide_eq_true hr)]
    omega
  · rw [at_of_step_ne hstep hr, if_neg (by simpa using hr)]
    exact hn

theorem rank_init (proxy : ProxyState) (machines : Machines η ω) (world : ω) (r : ℕ) :
    ((system proxy machines world).init.at r).rank = redirectLimit + 18 := rfl

/-! ### A request that has no response can go on -/

/-- A request that has arrived has begun, or has got its response at once. -/
def Started (l : Local η) : Prop :=
  l.arrived ≠ none → l.request = .idle → l.response ≠ none

theorem Started.localMove (h : Started l) (harrived : Arrived proxy l)
    (hm : LocalMove proxy machines server r l ev l') : Started l' := by
  cases hm with
  | preflight _ _ => exact fun _ _ => by simp
  | @start request q hnone _ hstep =>
    intro _ hidle
    rw [(harrived.fresh hnone).1] at hstep
    have hless := requestRank_step hstep
    dsimp only at hidle
    rw [hidle] at hless
    exact absurd hless (lt_irrefl _)
  | request hpermits hstep =>
    exact fun _ hidle => absurd hidle (advance_of_step hpermits hstep).ne_idle
  | serve _ _ _ => exact h
  | stranger _ _ _ _ => exact h
  | respond _ _ _ => exact fun _ _ => by simp

theorem started_of_reachable (hs : (system proxy machines world).Reachable s) (r : ℕ) :
    Started (s.at r) := by
  have hall : ∀ r, Started (s.at r) := by
    apply hs.invariant
    · exact fun r harrived => absurd rfl harrived
    · intro s ev s' hreach h hstep r
      rcases localMove_of_step hstep r with hsame | hm
      · rw [hsame]
        exact h r
      · exact (h r).localMove (own_of_reachable hreach r).arrived hm
  exact hall r

/-- The connection, or the stream, breaks. -/
def lossOf : RequestEvent → Bool
  | .openBi ok | .writeAll ok | .finish ok => !ok
  | .readToEnd bytes => bytes.isNone
  | _ => false

def Event.isLoss : Event → Bool
  | .server (.request _ e) => lossOf e
  | .serve _ e => streamLossOf e
  | _ => false

theorem isSome_step_request {e : RequestEvent}
    (hpermits : permits (isOpen s.server) (s.server.requests r) (s.streams r) e = true)
    (h : ((s.server.requests r).step proxy s.server.stores e).isSome = true) :
    (step proxy machines s (.server (.request r e))).isSome = true := by
  obtain ⟨q, hq⟩ := Option.isSome_iff_exists.mp h
  simp only [step, if_pos hpermits, Deployment.step, hq]
  rfl

/-- Some step about the request that is no loss can be made. -/
def CanGoOn (proxy : ProxyState) (machines : Machines η ω) (s : State η ω) (r : ℕ) : Prop :=
  ∃ ev, ev.request? = some r ∧ ev.isLoss = false ∧ (step proxy machines s ev).isSome = true

theorem CanGoOn.request {e : RequestEvent} (hloss : lossOf e = false)
    (hpermits : permits (isOpen s.server) (s.server.requests r) (s.streams r) e = true)
    (h : ((s.server.requests r).step proxy s.server.stores e).isSome = true) :
    CanGoOn proxy machines s r :=
  ⟨.server (.request r e), rfl, hloss, isSome_step_request hpermits h⟩

theorem exists_order (m : Finmap fun _ : SessionId => TunnelEntry) :
    ∃ order : TunnelMap.Order, order.toFinmap = m := by
  induction m using Finmap.induction_on with
  | H order => exact ⟨order, rfl⟩

/-- Only the tunnel keeps a request waiting. -/
theorem canGoOn_or_forwarding (hs : (system proxy machines world).Reachable s)
    (harrived : s.arrived r ≠ none) (hnone : s.responses r = none) :
    CanGoOn proxy machines s r ∨
      ∃ stage frame session c, s.server.requests r = .forwarding stage frame session c := by
  have hcons := consistent_of_reachable (reachable_server hs)
  obtain ⟨request, hrequest⟩ := Option.ne_none_iff_exists'.mp harrived
  obtain ⟨order, horder⟩ := exists_order s.server.stores.tunnels.inner.value
  have hanswered : ∀ response, (s.server.requests r).response = some response →
      CanGoOn proxy machines s r := by
    intro response hresponse
    refine ⟨.respond r, rfl, rfl, ?_⟩
    simp [step, hrequest, hresponse, hnone]
  cases hq : s.server.requests r with
  | idle => exact absurd hnone (started_of_reachable hs r harrived hq)
  | readCurrent frame =>
    left
    refine .request (e := .readCurrent) rfl rfl ?_
    rw [hq, Request.step]
    split <;> rfl
  | getSession frame owner =>
    left
    refine .request (e := .getSession) rfl rfl ?_
    rw [hq, Request.step]
    split <;> rfl
  | lookupConnection frame session =>
    left
    refine .request (e := .lookupConnection) rfl rfl ?_
    rw [hq, Request.step]
    split <;> rfl
  | forwarding stage frame session c => exact Or.inr ⟨stage, frame, session, c, rfl⟩
  | received session c response =>
    left
    refine .request (e := .readAuthMode order) rfl rfl ?_
    rw [hq, Request.step, if_pos horder, TunnelMap.authMode_eq hcons.tunnels]
    rfl
  | authApplied session c auth response =>
    left
    refine .request (e := .readErudaDisabled order) rfl rfl ?_
    rw [hq, Request.step, if_pos horder, TunnelMap.erudaDisabled_eq hcons.tunnels]
    rfl
  | answered session c auth disabled response => exact Or.inl (hanswered _ (by rw [hq]; rfl))
  | failed error => exact Or.inl (hanswered _ (by rw [hq]; rfl))
  | panicked =>
    obtain ⟨error, herror, -⟩ := ends_of_reachable hs r (by rw [State.at, hq]; rfl)
    rw [State.at, hq] at herror
    exact absurd herror (by simp)

/-- The tunnel can break at every point. -/
theorem exists_break (proxy : ProxyState) (machines : Machines η ω) {stage : ForwardStage}
    {frame : List UInt8} {session : Session} {c : Connection}
    (hq : s.server.requests r = .forwarding stage frame session c) :
    ∃ e, (step proxy machines s (.server (.request r e))).isSome = true := by
  cases stage with
  | openBi => exact ⟨.openBi false, isSome_step_request rfl (by rw [hq]; rfl)⟩
  | writeAll => exact ⟨.writeAll false, isSome_step_request rfl (by rw [hq]; rfl)⟩
  | finish => exact ⟨.finish false, isSome_step_request rfl (by rw [hq]; rfl)⟩
  | readToEnd => exact ⟨.readToEnd none, isSome_step_request rfl (by rw [hq]; rfl)⟩

/-! ### Every request is answered, once -/

theorem arrived_localMove (hm : LocalMove proxy machines server r l ev l') (h : l.arrived ≠ none) :
    l'.arrived ≠ none := by
  cases hm with
  | preflight hnone _ => exact absurd hnone h
  | start hnone _ _ => exact absurd hnone h
  | _ => exact h

theorem arrived_of_step (hstep : step proxy machines s ev = some s') (h : s.arrived r ≠ none) :
    s'.arrived r ≠ none := by
  have harrived : (s'.at r).arrived ≠ none := by
    rcases localMove_of_step hstep r with hsame | hm
    · rw [hsame]
      exact h
    · exact arrived_localMove hm h
  exact harrived

/-- A response that is out is not replaced. -/
theorem response_localMove (harrived : Arrived proxy l)
    (hm : LocalMove proxy machines server r l ev l') {x : Response} (hx : l.response = some x) :
    l'.response = some x := by
  cases hm with
  | preflight h _ => exact absurd (hx.symm.trans (harrived.fresh h).2.2) (by simp)
  | respond _ _ hnone => exact absurd (hx.symm.trans hnone) (by simp)
  | _ => exact hx

theorem response_of_run {more : List Event} (hs : (system proxy machines world).Reachable s)
    (hrun : (system proxy machines world).run s more = some s') {x : Response}
    (hx : s.responses r = some x) : s'.responses r = some x := by
  have hstep : ∀ t ev t', (system proxy machines world).Reachable t ∧ t.responses r = some x →
      (system proxy machines world).step t ev = some t' →
      (system proxy machines world).Reachable t' ∧ t'.responses r = some x := by
    rintro t ev t' ⟨ht, hx⟩ hev
    refine ⟨ht.step hev, ?_⟩
    have hresponse : (t'.at r).response = some x := by
      rcases localMove_of_step hev r with hsame | hm
      · rw [hsame]
        exact hx
      · exact response_localMove (own_of_reachable ht r).arrived hm hx
    exact hresponse
  exact (Transition.System.run_preserves hstep ⟨hs, hx⟩ hrun).2

/-- In every run the steps about one request are bounded, and however it went so far, it can be
brought to a response by its own steps. There is one response: what has gone out stays. -/
theorem request_answered {events : List Event}
    (hrun : (system proxy machines world).run (system proxy machines world).init events = some s) :
    events.countP (fun ev => ev.request? = some r) ≤ redirectLimit + 18 ∧
      (s.arrived r ≠ none → ∃ more t, (system proxy machines world).run s more = some t ∧
        (∀ ev ∈ more, ev.request? = some r) ∧ t.responses r ≠ none) ∧
      ∀ x more t, s.responses r = some x → (system proxy machines world).run s more = some t →
        t.responses r = some x := by
  have hs : (system proxy machines world).Reachable s := ⟨events, hrun⟩
  have hranked := ranked_request proxy machines world r
  refine ⟨?_, ?_, ?_⟩
  · exact hranked.countP_le (system proxy machines world).reachable_init
      (rank_init proxy machines world r).le hrun
  · intro harrived
    have hprogress : ∀ s, (system proxy machines world).Reachable s → s.arrived r ≠ none →
        ¬ s.responses r ≠ none → ∃ ev : Event, ev.request? = some r ∧
          ((system proxy machines world).step s ev).isSome = true := by
      intro s hs harrived hnone
      rcases canGoOn_or_forwarding hs harrived (not_not.mp hnone) with
        ⟨ev, hev, -, hstep⟩ | ⟨stage, frame, session, c, hq⟩
      · exact ⟨ev, hev, hstep⟩
      · obtain ⟨e, hbreak⟩ := exists_break proxy machines hq
        exact ⟨.server (.request r e), rfl, hbreak⟩
    obtain ⟨more, t, hmore, hown, -, ht⟩ := hranked.exists_run (fun s => s.arrived r ≠ none)
      (fun s => s.responses r ≠ none) (fun ev => ev.request? = some r) (fun ev hev => by simp [hev])
      (fun _ _ _ _ h _ hstep => arrived_of_step hstep h) hprogress hs harrived le_rfl
    exact ⟨more, t, hmore, hown, ht⟩
  · exact fun x more t hx hmore => response_of_run hs hmore hx

/-- A request that has just arrived, with no session open. -/
theorem request_answered_arrived :
    let traffic := system ⟨id, "https://my-vps.com"⟩ (constantMachines ⟨200, [], [7]⟩) []
    let events : List Event := [.arrive 0 ⟨"GET", "/", none, [], some []⟩]
    ∃ s more t, traffic.run traffic.init events = some s ∧ s.responses 0 = none ∧
      traffic.run s more = some t ∧ (∀ ev ∈ more, ev.request? = some 0) ∧ t.responses 0 ≠ none := by
  intro traffic events
  have hend : (traffic.run traffic.init events).map (fun s => ((s.arrived 0).isSome,
      (s.responses 0).isNone)) = some (true, true) := by decide
  obtain ⟨s, hs, hfacts⟩ := Option.map_eq_some_iff.mp hend
  simp only [Prod.mk.injEq, Option.isNone_iff_eq_none] at hfacts
  obtain ⟨-, hgoes, -⟩ := request_answered (r := 0) hs
  obtain ⟨more, t, hmore, hown, ht⟩ := hgoes (Option.isSome_iff_ne_none.mp hfacts.1)
  exact ⟨s, more, t, hs, hfacts.2, hmore, hown, ht⟩

end

end Mobilink.Deployment.Traffic
