import Mobilink.Deployment.Traffic

/-! Whose response a request gets, over whole runs of the deployment: what the stream, the exchanges
with the local server and the response of one request have to do with each other. -/
namespace Mobilink.Deployment.Traffic
open Mobilink.Core Mobilink.Server Mobilink.Cli

variable {η ω : Type*}

/-! ### What a request does with its stream -/

/-- The frame of a request that has not read its response yet. -/
def frameOf : Request → Option (List UInt8)
  | .readCurrent frame | .getSession frame _ | .lookupConnection frame _
  | .forwarding _ frame _ _ => some frame
  | _ => none

/-- The connection on which `forward` has opened a stream for the request. -/
def streamOn : Request → Option Connection
  | .forwarding .openBi _ _ _ => none
  | .forwarding _ _ _ c | .received _ c _ | .authApplied _ c _ _ | .answered _ c _ _ _ => some c
  | _ => none

/-- The request has got a response of the tunnel. -/
def isRelayed : Request → Bool
  | .received .. | .authApplied .. | .answered .. => true
  | _ => false

/-- What the request has made so far of the response `data`. -/
def Relays (proxy : ProxyState) (data : HttpResponseData) : Request → Prop
  | .received _ _ response => response = data
  | .authApplied _ _ auth response => response = applyAuthMode auth data
  | .answered _ _ auth erudaDisabled response =>
    response = applyEruda proxy erudaDisabled (applyAuthMode auth data)
  | _ => False

/-- The steps of a request that has begun, with what each does to its stream. -/
inductive Advance (proxy : ProxyState) (stream : Option (Connection × RequestStream η)) :
    Request → RequestEvent → Request → Option (Connection × RequestStream η) → Prop where
  | ends {q q' : Request} {e : RequestEvent} (h : q'.isEnded = true) :
    Advance proxy stream q e q' stream
  | resolves {q q' : Request} {e : RequestEvent} {frame : List UInt8} (h : frameOf q = some frame)
      (h' : frameOf q' = some frame) (hopen : streamOn q = none) (hopen' : streamOn q' = none) :
    Advance proxy stream q e q' stream
  | opens {frame : List UInt8} {session : Session} {c : Connection} {e : RequestEvent} :
    Advance proxy stream (.forwarding .openBi frame session c) e
      (.forwarding .writeAll frame session c) (some (c, .opened))
  | writes {frame : List UInt8} {session : Session} {c : Connection} {e : RequestEvent} :
    Advance proxy stream (.forwarding .writeAll frame session c) e
      (.forwarding .finish frame session c)
      (stream.map fun x => (x.1, { x.2 with request := some ⟨frame, false⟩ }))
  | finishes {frame : List UInt8} {session : Session} {c : Connection} {e : RequestEvent} :
    Advance proxy stream (.forwarding .finish frame session c) e
      (.forwarding .readToEnd frame session c)
      (stream.map fun x => (x.1, { x.2 with request := x.2.request.map Stream.finish }))
  | reads {frame bytes : List UInt8} {session : Session} {c : Connection} {e : RequestEvent}
      {data : HttpResponseData}
      (hbytes : (stream.bind fun x => Stream.delivered x.2.response) = some bytes)
      (h : Request.receive session c (some bytes) = .received session c data) :
    Advance proxy stream (.forwarding .readToEnd frame session c) e (.received session c data) stream
  | rewrites {q q' : Request} {e : RequestEvent} (c : Connection) (h : streamOn q = some c)
      (h' : streamOn q' = some c) (hq : isRelayed q = true) (hq' : isRelayed q' = true)
      (hrelays : ∀ data, Relays proxy data q → Relays proxy data q') :
    Advance proxy stream q e q' stream

theorem frameOf_of_isRelayed {q : Request} (h : isRelayed q = true) : frameOf q = none := by
  unfold isRelayed at h
  split at h
  · rfl
  · rfl
  · rfl
  · exact absurd h (by simp)

theorem receive_cases (session : Session) (c : Connection) (bytes : Option (List UInt8)) :
    (Request.receive session c bytes).isEnded = true ∨ ∃ frame data, bytes = some frame ∧
      Request.receive session c bytes = .received session c data := by
  unfold Request.receive
  cases bytes with
  | none => exact Or.inl rfl
  | some frame =>
    cases (some frame).bind (Wire.readToEnd Wire.maxFrameBytes) with
    | none => exact Or.inl rfl
    | some b =>
      dsimp only
      cases (Wire.decode b : Option HttpResponseData) with
      | none => exact Or.inl rfl
      | some data => exact Or.inr ⟨frame, data, rfl, rfl⟩

/-- Only the router starts a request. -/
theorem ne_idle_of_permits {proxy : ProxyState} {st : Stores} {q q' : Request} {e : RequestEvent}
    {isOpen : Connection → Bool} {stream : Option (Connection × RequestStream η)}
    (hpermits : permits isOpen q stream e = true) (h : q.step proxy st e = some q') : q ≠ .idle := by
  rintro rfl
  cases e with
  | start _ => exact absurd hpermits (by simp [permits])
  | _ => exact absurd h (by simp [Request.step])

theorem advance_of_step {proxy : ProxyState} {st : Stores} {q q' : Request} {e : RequestEvent}
    {isOpen : Connection → Bool} {stream : Option (Connection × RequestStream η)}
    (hpermits : permits isOpen q stream e = true)
    (h : q.step proxy st e = some q') : Advance proxy stream q e q' (onStream q e stream) := by
  unfold Request.step at h
  split at h
  · exact absurd hpermits (by simp [permits])
  · split at h
    · rw [← Option.some.inj h]
      exact .resolves rfl rfl rfl rfl
    · rw [← Option.some.inj h]
      exact .ends rfl
  · split at h
    · rw [← Option.some.inj h]
      exact .resolves rfl rfl rfl rfl
    · rw [← Option.some.inj h]
      exact .ends rfl
  · split at h
    · rw [← Option.some.inj h]
      exact .ends rfl
    · rw [← Option.some.inj h]
      exact .ends rfl
    · rw [← Option.some.inj h]
      exact .resolves rfl rfl rfl rfl
  -- The three writes to the tunnel.
  · rename_i ok
    cases ok with
    | true =>
      rw [← Option.some.inj h]
      exact .opens
    | false =>
      rw [← Option.some.inj h]
      exact .ends rfl
  · rename_i ok
    cases ok with
    | true =>
      rw [← Option.some.inj h]
      exact .writes
    | false =>
      rw [← Option.some.inj h]
      exact .ends rfl
  · rename_i ok
    cases ok with
    | true =>
      rw [← Option.some.inj h]
      exact .finishes
    | false =>
      rw [← Option.some.inj h]
      exact .ends rfl
  · rename_i frame session c bytes
    rw [← Option.some.inj h]
    rcases receive_cases session c bytes with hended | ⟨b, data, rfl, hdata⟩
    · exact .ends hended
    · rw [hdata]
      exact .reads (by simpa [permits] using hpermits) hdata
  · split_ifs at h
    split at h
    · rw [← Option.some.inj h]
      exact .ends rfl
    · rw [← Option.some.inj h]
      refine .rewrites _ rfl rfl rfl rfl ?_
      intro data hdata
      exact congrArg (applyAuthMode _) hdata
  · split_ifs at h
    split at h
    · rw [← Option.some.inj h]
      exact .ends rfl
    · rw [← Option.some.inj h]
      refine .rewrites _ rfl rfl rfl rfl ?_
      intro data hdata
      exact congrArg (applyEruda proxy _) hdata
  · exact absurd h (by simp)

/-! ### What a request, its frame and its response have to do with each other -/

/-- Everything that is kept of a request comes from the public request that arrived. -/
structure Arrived (proxy : ProxyState) (l : Local η) : Prop where
  begun : l.request ≠ .idle → ∃ request, l.arrived = some request ∧ request.method ≠ "OPTIONS"
  frame : ∀ frame, frameOf l.request = some frame → ∃ request, l.arrived = some request ∧
    Request.acceptRequest proxy request = .readCurrent frame
  stream : l.stream ≠ none → l.request ≠ .idle
  written : ∀ c stream x, l.stream = some (c, stream) → stream.request = some x →
    ∃ request, l.arrived = some request ∧
      Request.acceptRequest proxy request = .readCurrent x.bytes
  options : ∀ request, l.arrived = some request → request.method = "OPTIONS" →
    l.request = .idle ∧ l.response = some (preflight request)
  response : ∀ x, l.response = some x → ∃ request, l.arrived = some request ∧
    ((request.method = "OPTIONS" ∧ x = preflight request) ∨
      ∃ inner, l.request.response = some inner ∧ x = corsLayer request inner)

theorem frameOf_acceptRequest {proxy : ProxyState} {request : PublicRequest} {frame : List UInt8}
    (h : frameOf (Request.acceptRequest proxy request) = some frame) :
    Request.acceptRequest proxy request = .readCurrent frame := by
  unfold Request.acceptRequest at h ⊢
  split at h
  · exact absurd h (by simp [frameOf])
  · split at h
    · exact absurd h (by simp [frameOf])
    · exact congrArg Request.readCurrent (Option.some.inj h)

theorem isDone_of_response {q : Request} {response : Response} (h : q.response = some response) :
    q.isDone = true := by
  unfold Request.response at h
  split at h
  · rfl
  · rfl
  · exact absurd h (by simp)

section

variable {proxy : ProxyState} {machines : Machines η ω} {server : Deployment.State} {l l' : Local η}
  {r : ℕ} {ev : Event}

theorem Advance.frame {stream stream' : Option (Connection × RequestStream η)} {q q' : Request}
    {e : RequestEvent} (h : Advance proxy stream q e q' stream') {frame : List UInt8}
    (hframe : frameOf q' = some frame) : frameOf q = some frame := by
  cases h with
  | ends hended =>
    unfold Request.isEnded at hended
    split at hended
    · exact absurd hframe (by simp [frameOf])
    · exact absurd hframe (by simp [frameOf])
    · exact absurd hended (by simp)
  | resolves h h' _ _ => rw [h, ← h', hframe]
  | opens => exact hframe
  | writes => exact hframe
  | finishes => exact hframe
  | reads _ _ => exact absurd hframe (by simp [frameOf])
  | rewrites _ _ _ _ hq' _ => exact absurd ((frameOf_of_isRelayed hq').symm.trans hframe) (by simp)

theorem Advance.ne_idle {stream stream' : Option (Connection × RequestStream η)} {q q' : Request}
    {e : RequestEvent} (h : Advance proxy stream q e q' stream') : q' ≠ .idle := by
  rintro rfl
  cases h with
  | ends hended => exact absurd hended (by simp [Request.isEnded])
  | resolves _ hframe _ _ => exact absurd hframe (by simp [frameOf])
  | rewrites _ _ hopen _ _ _ => exact absurd hopen (by simp [streamOn])

/-- What stands on the stream after a step is the request's frame, or stood there before. -/
theorem Advance.written {stream stream' : Option (Connection × RequestStream η)} {q q' : Request}
    {e : RequestEvent} (h : Advance proxy stream q e q' stream') {c : Connection}
    {x : RequestStream η} {sent : Stream} (hx : stream' = some (c, x))
    (hsent : x.request = some sent) :
    frameOf q = some sent.bytes ∨
      ∃ c₀ x₀ sent₀, stream = some (c₀, x₀) ∧ x₀.request = some sent₀ ∧ sent₀.bytes = sent.bytes := by
  cases h with
  | opens =>
    rw [← (Prod.mk.inj (Option.some.inj hx)).2] at hsent
    exact absurd hsent (by simp [RequestStream.opened])
  | writes =>
    obtain ⟨⟨c₀, x₀⟩, -, hwrite⟩ := Option.map_eq_some_iff.mp hx
    rw [← (Prod.mk.inj hwrite).2] at hsent
    rw [← Option.some.inj hsent]
    exact Or.inl rfl
  | finishes =>
    obtain ⟨⟨c₀, x₀⟩, hold, hfinish⟩ := Option.map_eq_some_iff.mp hx
    rw [← (Prod.mk.inj hfinish).2] at hsent
    obtain ⟨sent₀, hsent₀, heq⟩ := Option.map_eq_some_iff.mp hsent
    exact Or.inr ⟨c₀, x₀, sent₀, hold, hsent₀, by rw [← heq]; rfl⟩
  | ends _ => exact Or.inr ⟨c, x, sent, hx, hsent, rfl⟩
  | resolves _ _ _ _ => exact Or.inr ⟨c, x, sent, hx, hsent, rfl⟩
  | reads _ _ => exact Or.inr ⟨c, x, sent, hx, hsent, rfl⟩
  | rewrites _ _ _ _ _ _ => exact Or.inr ⟨c, x, sent, hx, hsent, rfl⟩

/-- Nothing is known yet of a request that has not arrived. -/
theorem Arrived.fresh (h : Arrived proxy l) (hl : l.arrived = none) :
    l.request = .idle ∧ l.stream = none ∧ l.response = none := by
  have hidle : l.request = .idle := by
    by_contra hne
    obtain ⟨request, hrequest, -⟩ := h.begun hne
    exact absurd (hl.symm.trans hrequest) (by simp)
  refine ⟨hidle, ?_, ?_⟩
  · by_contra hne
    exact h.stream hne hidle
  · by_contra hne
    obtain ⟨x, hx⟩ := Option.ne_none_iff_exists'.mp hne
    obtain ⟨request, hrequest, -⟩ := h.response x hx
    exact absurd (hl.symm.trans hrequest) (by simp)

theorem Arrived.localMove (h : Arrived proxy l) (hm : LocalMove proxy machines server r l ev l') :
    Arrived proxy l' := by
  cases hm with
  | @preflight request hnone hmethod =>
    obtain ⟨hidle, hstream, -⟩ := h.fresh hnone
    constructor
    · exact fun hne => absurd hidle hne
    · intro frame hframe
      dsimp only at hframe
      rw [hidle] at hframe
      exact absurd hframe (by simp [frameOf])
    · exact fun hne => absurd hstream hne
    · exact fun _ _ _ hsome => absurd (hstream.symm.trans hsome) (by simp)
    · intro request' hsome _
      rw [Option.some.inj hsome]
      exact ⟨hidle, rfl⟩
    · intro x hx
      exact ⟨request, rfl, Or.inl ⟨hmethod, (Option.some.inj hx).symm⟩⟩
  | @start request q hnone hmethod hstep =>
    obtain ⟨hidle, hstream, hresponse⟩ := h.fresh hnone
    rw [hidle] at hstep
    have hq : Request.acceptRequest proxy request = q := Option.some.inj hstep
    constructor
    · exact fun _ => ⟨request, rfl, hmethod⟩
    · intro frame hframe
      dsimp only at hframe
      rw [← hq] at hframe
      exact ⟨request, rfl, frameOf_acceptRequest hframe⟩
    · exact fun hne => absurd hstream hne
    · exact fun _ _ _ hsome => absurd (hstream.symm.trans hsome) (by simp)
    · intro request' hsome hoptions
      rw [← Option.some.inj hsome] at hoptions
      exact absurd hoptions hmethod
    · exact fun _ hsome => absurd (hresponse.symm.trans hsome) (by simp)
  | @request e q hpermits hstep =>
    have hadvance := advance_of_step hpermits hstep
    have hne := ne_idle_of_permits hpermits hstep
    constructor
    · exact fun _ => h.begun hne
    · exact fun frame hframe => h.frame frame (hadvance.frame hframe)
    · exact fun _ => hadvance.ne_idle
    · intro c x sent hx hsent
      rcases hadvance.written hx hsent with hframe | ⟨c₀, x₀, sent₀, hx₀, hsent₀, heq⟩
      · exact h.frame _ hframe
      · exact heq ▸ h.written c₀ x₀ sent₀ hx₀ hsent₀
    · exact fun request hsome hoptions => absurd (h.options request hsome hoptions).1 hne
    · intro x hx
      obtain ⟨request, hrequest, hoptions | ⟨inner, hinner, -⟩⟩ := h.response x hx
      · exact ⟨request, hrequest, Or.inl hoptions⟩
      · rw [Request.step_of_isDone (isDone_of_response hinner)] at hstep
        exact absurd hstep (by simp)
  | @serve c stream stream' port e w w' new hs _ hstep =>
    have hsame := RequestStream.request_step hstep
    refine { h with stream := ?_, written := ?_ }
    · exact fun _ => h.stream (by simp [hs])
    · intro c' x sent hx hsent
      rw [← (Prod.mk.inj (Option.some.inj hx)).2, hsame] at hsent
      exact h.written c stream sent hs hsent
  | @stranger c stream bytes hs _ _ =>
    refine { h with stream := ?_, written := ?_ }
    · exact fun _ => h.stream (by simp [hs])
    · intro c' x sent hx hsent
      rw [← (Prod.mk.inj (Option.some.inj hx)).2] at hsent
      exact h.written c stream sent hs hsent
  | @respond request response hrequest hresponse =>
    refine { h with options := ?_, response := ?_ }
    · intro request' hsome hoptions
      have hidle := (h.options request' hsome hoptions).1
      rw [hidle] at hresponse
      exact absurd hresponse (by simp [Request.response])
    · intro x hx
      exact ⟨request, hrequest, Or.inr ⟨response, hresponse, (Option.some.inj hx).symm⟩⟩

/-! ### The stream of a request -/

/-- A request has a stream from `open_bi` on, on the connection it was forwarded to. -/
structure Piped (server : Deployment.State) (l : Local η) : Prop where
  unopened : streamOn l.request = none → l.request.isEnded = false → l.stream = none
  opened : ∀ c, streamOn l.request = some c → ∃ stream, l.stream = some (c, stream)
  unwritten : ∀ frame session c c' stream, l.request = .forwarding .writeAll frame session c →
    l.stream = some (c', stream) → stream.request = none
  announced : ∀ c stream, l.stream = some (c, stream) → ∃ id hello, Announced server id c hello

theorem streamOn_of_isEnded {q : Request} (h : q.isEnded = true) : streamOn q = none := by
  unfold Request.isEnded at h
  split at h
  · rfl
  · rfl
  · exact absurd h (by simp)

theorem isEnded_of_frameOf {q : Request} {frame : List UInt8} (h : frameOf q = some frame) :
    q.isEnded = false := by
  cases q with
  | failed _ => exact absurd h (by simp [frameOf])
  | panicked => exact absurd h (by simp [frameOf])
  | _ => rfl

/-- A step that leaves the request on the connection of its stream, and the stream there too. -/
theorem Piped.keeps (h : Piped server l) {c : Connection} (hopen : streamOn l.request = some c)
    {q : Request} (hq : streamOn q = some c) (hwrite : ∀ frame session c',
      q ≠ .forwarding .writeAll frame session c') {stream : Option (Connection × RequestStream η)}
    (hsome : stream.isSome = l.stream.isSome)
    (hstream : ∀ c x, stream = some (c, x) → ∃ x₀, l.stream = some (c, x₀)) :
    Piped server { l with request := q, stream } := by
  constructor
  · exact fun hnone => absurd (hq.symm.trans hnone) (by simp)
  · intro c' hc'
    have hc : c = c' := Option.some.inj (hq.symm.trans hc')
    obtain ⟨x₀, hx₀⟩ := h.opened c hopen
    rw [hx₀, Option.isSome_some] at hsome
    obtain ⟨⟨c₁, x₁⟩, hx₁⟩ := Option.isSome_iff_exists.mp hsome
    obtain ⟨x₂, hx₂⟩ := hstream c₁ x₁ hx₁
    have hsame : c = c₁ := (Prod.mk.inj (Option.some.inj (hx₀.symm.trans hx₂))).1
    exact ⟨x₁, by rw [← hc, hsame]; exact hx₁⟩
  · exact fun frame session c' _ _ hwriting => absurd hwriting (hwrite frame session c')
  · intro c' x hx
    obtain ⟨x₀, hx₀⟩ := hstream c' x hx
    exact h.announced c' x₀ hx₀

theorem Piped.advance {e : RequestEvent} {q : Request}
    {stream : Option (Connection × RequestStream η)} (h : Piped server l)
    (hadvance : Advance proxy l.stream l.request e q stream)
    (hannounced : ∀ c, l.request.connection = some c → ∃ id hello, Announced server id c hello) :
    Piped server { l with request := q, stream } := by
  have hmap : ∀ (f : RequestStream η → RequestStream η) c x,
      l.stream.map (fun x => (x.1, f x.2)) = some (c, x) → ∃ x₀, l.stream = some (c, x₀) := by
    intro f c x hx
    obtain ⟨⟨c₀, x₀⟩, hx₀, heq⟩ := Option.map_eq_some_iff.mp hx
    exact ⟨x₀, by rw [hx₀, ← (Prod.mk.inj heq).1]⟩
  generalize hl : l.request = q₀ at hadvance
  cases hadvance with
  | ends hended =>
    have hnone := streamOn_of_isEnded hended
    refine { h with unopened := ?_, opened := ?_, unwritten := ?_ }
    · exact fun _ hnot => absurd (hended.symm.trans hnot) (by simp)
    · exact fun c hc => absurd (hnone.symm.trans hc) (by simp)
    · intro frame session c c' x hwriting
      dsimp only at hwriting
      rw [hwriting] at hended
      exact absurd hended (by simp [Request.isEnded])
  | resolves hframe _ hopen hopen' =>
    rw [← hl] at hframe hopen
    have hnone := h.unopened hopen (isEnded_of_frameOf hframe)
    refine { h with unopened := ?_, opened := ?_, unwritten := ?_ }
    · exact fun _ _ => hnone
    · exact fun c hc => absurd (hopen'.symm.trans hc) (by simp)
    · exact fun _ _ _ _ _ _ hx => absurd (hnone.symm.trans hx) (by simp)
  | @opens frame session c =>
    constructor
    · exact fun hnone => absurd hnone (by simp [streamOn])
    · intro c' hc'
      have hc : c = c' := Option.some.inj hc'
      exact ⟨.opened, by rw [hc]⟩
    · intro _ _ _ c' x _ hx
      rw [← (Prod.mk.inj (Option.some.inj hx)).2]
      rfl
    · intro c' x hx
      rw [← (Prod.mk.inj (Option.some.inj hx)).1]
      exact hannounced c (by rw [hl]; rfl)
  | @writes frame session c =>
    refine h.keeps (by rw [hl]; rfl) rfl (by simp) (by simp) ?_
    exact hmap fun x => { x with request := some ⟨frame, false⟩ }
  | @finishes frame session c =>
    refine h.keeps (by rw [hl]; rfl) rfl (by simp) (by simp) ?_
    exact hmap fun x => { x with request := x.request.map Stream.finish }
  | @reads frame bytes session c _ _ _ _ =>
    exact h.keeps (by rw [hl]; rfl) rfl (by simp) rfl fun _ x hx => ⟨x, hx⟩
  | rewrites c hopen hopen' _ hq' _ =>
    refine h.keeps (by rw [hl]; exact hopen) hopen' ?_ rfl fun _ x hx => ⟨x, hx⟩
    rintro frame session c' rfl
    exact absurd hq' (by simp [isRelayed])

/-- A step of the stream's other end. -/
theorem Piped.withStream (h : Piped server l) {c : Connection} {stream : RequestStream η}
    (hs : l.stream = some (c, stream)) (stream' : RequestStream η)
    (hsame : stream'.request = stream.request) (sent : List (Exchange η))
    (machines : List Connection) :
    Piped server { l with stream := some (c, stream'), sent, machines } := by
  constructor
  · intro hopen hnot
    have hnone := h.unopened hopen hnot
    exact absurd (hs.symm.trans hnone) (by simp)
  · intro c' hc'
    obtain ⟨x, hx⟩ := h.opened c' hc'
    have hc : c = c' := (Prod.mk.inj (Option.some.inj (hs.symm.trans hx))).1
    exact ⟨stream', by rw [hc]⟩
  · intro frame session c₁ c' x hwriting hx
    rw [← (Prod.mk.inj (Option.some.inj hx)).2, hsame]
    exact h.unwritten frame session c₁ c stream hwriting hs
  · intro c' x hx
    rw [← (Prod.mk.inj (Option.some.inj hx)).1]
    exact h.announced c stream hs

theorem Piped.localMove (h : Piped server l) (harrived : Arrived proxy l)
    (hannounced : ∀ c, l.request.connection = some c → ∃ id hello, Announced server id c hello)
    (hm : LocalMove proxy machines server r l ev l') : Piped server l' := by
  cases hm with
  | preflight _ _ => exact { h with }
  | @start request q hnone _ hstep =>
    obtain ⟨hidle, hstream, -⟩ := harrived.fresh hnone
    rw [hidle] at hstep
    have hq : Request.acceptRequest proxy request = q := Option.some.inj hstep
    have hopen : streamOn q = none := by
      rw [← hq]
      unfold Request.acceptRequest
      split
      · rfl
      · split <;> rfl
    constructor
    · exact fun _ _ => hstream
    · exact fun c hc => absurd (hopen.symm.trans hc) (by simp)
    · exact fun _ _ _ _ _ _ hx => absurd (hstream.symm.trans hx) (by simp)
    · exact fun _ _ hx => absurd (hstream.symm.trans hx) (by simp)
  | request hpermits hstep => exact h.advance (advance_of_step hpermits hstep) hannounced
  | serve hs _ hstep => exact h.withStream hs _ (RequestStream.request_step hstep) _ _
  | @stranger c stream bytes hs _ _ =>
    exact h.withStream hs { stream with response := some ⟨bytes, true⟩ } rfl l.sent l.machines
  | respond _ _ => exact { h with }

/-! ### The exchanges and the response of a request -/

/-- The stream of a request is served by the CLI of its connection, if there is one, and carries the
response that the request has got. -/
structure Exchanged (proxy : ProxyState) (client : HttpClient η) (server : Deployment.State)
    (l : Local η) : Prop where
  served : ∀ c stream port, l.stream = some (c, stream) → servedBy server c = some port →
    Served client port stream l.sent
  unserved : ∀ c stream, l.stream = some (c, stream) → servedBy server c = none →
    stream.task = none ∧ l.sent = [] ∧ (server.clis c ≠ none → stream.response = none)
  silent : l.stream = none → l.sent = []
  placed : ∀ c ∈ l.machines, ∃ stream, l.stream = some (c, stream)
  relayed : isRelayed l.request = true → ∃ c stream bytes session data,
    l.stream = some (c, stream) ∧ Stream.delivered stream.response = some bytes ∧
      Request.receive session c (some bytes) = .received session c data ∧
      Relays proxy data l.request

variable {client : HttpClient η}

theorem isRelayed_of_isEnded {q : Request} (h : q.isEnded = true) : isRelayed q = false := by
  unfold Request.isEnded at h
  split at h
  · rfl
  · rfl
  · exact absurd h (by simp)

/-- A step that writes on the stream. -/
theorem Exchanged.write (h : Exchanged proxy client server l) (f : RequestStream η → RequestStream η)
    (hserved : ∀ c stream port, l.stream = some (c, stream) →
      Served client port stream l.sent → Served client port (f stream) l.sent)
    (htask : ∀ stream, (f stream).task = stream.task)
    (hresponse : ∀ stream, (f stream).response = stream.response) {q : Request}
    (hq : isRelayed q = false) :
    Exchanged proxy client server
      { l with request := q, stream := l.stream.map fun x => (x.1, f x.2) } := by
  constructor
  · intro c stream port hs hport
    obtain ⟨⟨c₀, stream₀⟩, hold, heq⟩ := Option.map_eq_some_iff.mp hs
    obtain ⟨rfl, rfl⟩ := Prod.mk.inj heq
    exact hserved c₀ stream₀ port hold (h.served c₀ stream₀ port hold hport)
  · intro c stream hs hport
    obtain ⟨⟨c₀, stream₀⟩, hold, heq⟩ := Option.map_eq_some_iff.mp hs
    obtain ⟨rfl, rfl⟩ := Prod.mk.inj heq
    rw [htask, hresponse]
    exact h.unserved c₀ stream₀ hold hport
  · exact fun hs => h.silent (Option.map_eq_none_iff.mp hs)
  · intro c hc
    obtain ⟨x, hx⟩ := h.placed c hc
    exact ⟨f x, by rw [hx]; rfl⟩
  · exact fun hrelayed => absurd (hq.symm.trans hrelayed) (by simp)

theorem Exchanged.advance {e : RequestEvent} {q : Request}
    {stream : Option (Connection × RequestStream η)} (h : Exchanged proxy client server l)
    (hpiped : Piped server l) (hadvance : Advance proxy l.stream l.request e q stream) :
    Exchanged proxy client server { l with request := q, stream } := by
  generalize hl : l.request = q₀ at hadvance
  cases hadvance with
  | ends hended =>
    refine { h with relayed := ?_ }
    exact fun hrelayed => absurd ((isRelayed_of_isEnded hended).symm.trans hrelayed) (by simp)
  | resolves _ hframe _ _ =>
    refine { h with relayed := ?_ }
    exact fun hrelayed => absurd ((frameOf_of_isRelayed hrelayed).symm.trans hframe) (by simp)
  | @opens frame session c =>
    have hnone := hpiped.unopened (by rw [hl]; rfl) (by rw [hl]; rfl)
    have hsent := h.silent hnone
    constructor
    · intro c' stream port hs _
      rw [← (Prod.mk.inj (Option.some.inj hs)).2]
      dsimp only
      rw [hsent]
      exact .waiting
    · intro c' stream hs _
      rw [← (Prod.mk.inj (Option.some.inj hs)).2]
      exact ⟨rfl, hsent, fun _ => rfl⟩
    · exact fun hs => absurd hs (by simp)
    · intro c' hc'
      obtain ⟨x, hx⟩ := h.placed c' hc'
      exact absurd (hnone.symm.trans hx) (by simp)
    · exact fun hrelayed => absurd hrelayed (by simp [isRelayed])
  | @writes frame session c =>
    apply h.write fun x => { x with request := some ⟨frame, false⟩ }
    · intro c' stream port hs hserved
      exact hserved.writeRequest (hpiped.unwritten frame session c c' stream hl hs) frame
    · exact fun _ => rfl
    · exact fun _ => rfl
    · rfl
  | finishes =>
    apply h.write fun x => { x with request := x.request.map Stream.finish }
    · exact fun _ _ _ _ hserved => hserved.finishRequest
    · exact fun _ => rfl
    · exact fun _ => rfl
    · rfl
  | @reads frame bytes session c _ data hbytes hdata =>
    refine { h with relayed := ?_ }
    intro _
    obtain ⟨x, hx⟩ := hpiped.opened c (by rw [hl]; rfl)
    rw [hx, Option.bind_some] at hbytes
    exact ⟨c, x, bytes, session, data, hx, hbytes, hdata, rfl⟩
  | rewrites _ _ _ hq _ hrelays =>
    refine { h with relayed := ?_ }
    intro _
    rw [← hl] at hq hrelays
    obtain ⟨c, x, bytes, session, data, hx, hbytes, hdata, hold⟩ := h.relayed hq
    exact ⟨c, x, bytes, session, data, hx, hbytes, hdata, hrelays data hold⟩

theorem Exchanged.serve (h : Exchanged proxy client server l) {c : Connection}
    {stream stream' : RequestStream η} {port : UInt16} {e : StreamEvent} {w w' : ω}
    {exchange : ω → Outgoing η → ω × Option Reply} {new : List (Exchange η)}
    (hs : l.stream = some (c, stream)) (hport : servedBy server c = some port)
    (hstep : stream.step client exchange port w e = some (w', stream', new)) :
    Exchanged proxy client server
      { l with stream := some (c, stream'), sent := l.sent ++ new,
               machines := l.machines ++ new.map fun _ => c } := by
  have hserved := h.served c stream port hs hport
  constructor
  · intro c' x port' hx hport'
    obtain ⟨rfl, rfl⟩ := Prod.mk.inj (Option.some.inj hx)
    have hsame : port = port' := Option.some.inj (hport.symm.trans hport')
    exact hsame ▸ hserved.step hstep
  · intro c' x hx hnone
    rw [← (Prod.mk.inj (Option.some.inj hx)).1] at hnone
    exact absurd (hport.symm.trans hnone) (by simp)
  · exact fun hx => absurd hx (by simp)
  · intro c' hc'
    rcases List.mem_append.mp hc' with hold | hnew
    · obtain ⟨x, hx⟩ := h.placed c' hold
      obtain ⟨rfl, -⟩ := Prod.mk.inj (Option.some.inj (hs.symm.trans hx))
      exact ⟨stream', rfl⟩
    · obtain ⟨-, -, rfl⟩ := List.mem_map.mp hnew
      exact ⟨stream', rfl⟩
  · intro hrelayed
    obtain ⟨c', x, bytes, session, data, hx, hbytes, hdata, hold⟩ := h.relayed hrelayed
    obtain ⟨rfl, rfl⟩ := Prod.mk.inj (Option.some.inj (hs.symm.trans hx))
    exact ⟨c, stream', bytes, session, data, rfl, hserved.delivered_step hstep hbytes, hdata, hold⟩

theorem Exchanged.stranger (h : Exchanged proxy client server l) {c : Connection}
    {stream : RequestStream η} (bytes : List UInt8) (hs : l.stream = some (c, stream))
    (hcli : server.clis c = none) (hresponse : stream.response = none) :
    Exchanged proxy client server
      { l with stream := some (c, { stream with response := some ⟨bytes, true⟩ }) } := by
  have hnone : servedBy server c = none := by rw [servedBy, hcli, Option.bind_none]
  constructor
  · intro c' x port hx hport
    rw [← (Prod.mk.inj (Option.some.inj hx)).1] at hport
    exact absurd (hnone.symm.trans hport) (by simp)
  · intro c' x hx _
    obtain ⟨rfl, rfl⟩ := Prod.mk.inj (Option.some.inj hx)
    obtain ⟨htask, hsent, -⟩ := h.unserved c stream hs hnone
    exact ⟨htask, hsent, fun hne => absurd hcli hne⟩
  · exact fun hx => absurd hx (by simp)
  · intro c' hc'
    obtain ⟨x, hx⟩ := h.placed c' hc'
    obtain ⟨rfl, -⟩ := Prod.mk.inj (Option.some.inj (hs.symm.trans hx))
    exact ⟨_, rfl⟩
  · intro hrelayed
    obtain ⟨c', x, bytes', _, _, hx, hbytes, -, -⟩ := h.relayed hrelayed
    rw [← (Prod.mk.inj (Option.some.inj (hs.symm.trans hx))).2, hresponse] at hbytes
    exact absurd hbytes (by simp [Stream.delivered])

theorem Exchanged.localMove (h : Exchanged proxy machines.client server l)
    (harrived : Arrived proxy l) (hpiped : Piped server l)
    (hm : LocalMove proxy machines server r l ev l') : Exchanged proxy machines.client server l' := by
  cases hm with
  | preflight _ _ => exact { h with }
  | @start request q hnone _ hstep =>
    obtain ⟨hidle, -, -⟩ := harrived.fresh hnone
    rw [hidle] at hstep
    have hq : Request.acceptRequest proxy request = q := Option.some.inj hstep
    refine { h with relayed := ?_ }
    intro hrelayed
    dsimp only at hrelayed
    rw [← hq] at hrelayed
    unfold Request.acceptRequest at hrelayed
    split at hrelayed
    · exact absurd hrelayed (by simp [isRelayed])
    · split at hrelayed <;> exact absurd hrelayed (by simp [isRelayed])
  | request hpermits hstep => exact h.advance hpiped (advance_of_step hpermits hstep)
  | serve hs hport hstep => exact h.serve hs hport hstep
  | stranger bytes hs hcli hresponse => exact h.stranger bytes hs hcli hresponse
  | respond _ _ => exact { h with }

end

/-! ### Steps of the server around a request -/

section

variable {proxy : ProxyState} {client : HttpClient η} {server server' : Deployment.State} {l : Local η}

/-- The CLI of a connection stays, and stays in `serve`. -/
theorem clis_move {e : Deployment.Event} (hm : Move proxy server e server') {c : Connection}
    (hc : server.tasks c ≠ none) :
    (server'.clis c = none ↔ server.clis c = none) ∧
      ∀ port, servedBy server c = some port → servedBy server' c = some port := by
  cases hm with
  | @connect c' cli hnone =>
    have hne : c ≠ c' := fun he => hc (he ▸ hnone)
    have hsame : Function.update server.clis c' (cli.map (Cli.Handshake.pending .connect)) c =
        server.clis c := Function.update_of_ne hne _ _
    rw [servedBy, servedBy]
    dsimp only
    rw [hsame]
    exact ⟨Iff.rfl, fun _ h => h⟩
  | stranger _ _ _ _ => exact ⟨Iff.rfl, fun _ h => h⟩
  | @cli c' e cli out hcli hstep =>
    by_cases he : c = c'
    · subst he
      have hafter : (server.withCli c out).clis c = some out.2 := Function.update_self _ _ _
      refine ⟨by simp [hafter, hcli], ?_⟩
      intro port hport
      rw [servedBy, hcli, Option.bind_some] at hport
      cases cli with
      | established hello session => exact absurd hstep (by simp [Cli.Handshake.step])
      | _ => exact absurd hport (by simp [servingPort])
    · have hsame : (server.withCli c' out).clis c = server.clis c := Function.update_of_ne he _ _
      rw [servedBy, servedBy, hsame]
      exact ⟨Iff.rfl, fun _ h => h⟩
  | task _ _ _ => exact ⟨Iff.rfl, fun _ h => h⟩
  | request _ => exact ⟨Iff.rfl, fun _ h => h⟩

theorem tasks_of_announced {id : SessionId} {c : Connection} {hello : ClientMessage}
    (h : Announced server id c hello) : server.tasks c ≠ none := by
  obtain ⟨p, created, ho, -⟩ := h
  rw [ho]
  simp

theorem Piped.move {baseUrl : String} {e : Deployment.Event} (h : Piped server l)
    (hc : Consistent baseUrl server) (hm : Move proxy server e server') : Piped server' l := by
  refine { h with announced := ?_ }
  intro c stream hs
  obtain ⟨id, hello, ha⟩ := h.announced c stream hs
  exact ⟨id, hello, ha.move hc hm⟩

theorem Exchanged.move {e : Deployment.Event} (h : Exchanged proxy client server l)
    (hpiped : Piped server l) (hm : Move proxy server e server') :
    Exchanged proxy client server' l := by
  have hclis : ∀ c stream, l.stream = some (c, stream) →
      (server'.clis c = none ↔ server.clis c = none) ∧
        ∀ port, servedBy server c = some port → servedBy server' c = some port := by
    intro c stream hs
    obtain ⟨id, hello, ha⟩ := hpiped.announced c stream hs
    exact clis_move hm (tasks_of_announced ha)
  refine { h with served := ?_, unserved := ?_ }
  · intro c stream port hs hport
    obtain ⟨hcli, hkept⟩ := hclis c stream hs
    cases hold : servedBy server c with
    | some port' =>
      have hsame : port' = port := Option.some.inj ((hkept port' hold).symm.trans hport)
      exact hsame ▸ h.served c stream port' hs hold
    | none =>
      -- The CLI has just entered `serve`.
      obtain ⟨htask, hsent, hresponse⟩ := h.unserved c stream hs hold
      have hne : server.clis c ≠ none := by
        intro hnone
        rw [servedBy, hcli.mpr hnone, Option.bind_none] at hport
        exact absurd hport (by simp)
      obtain ⟨request, response, task⟩ := stream
      obtain rfl : task = none := htask
      obtain rfl : response = none := hresponse hne
      rw [hsent]
      exact .waiting
  · intro c stream hs hnone
    obtain ⟨hcli, hkept⟩ := hclis c stream hs
    cases hold : servedBy server c with
    | some port => exact absurd ((hkept port hold).symm.trans hnone) (by simp)
    | none =>
      obtain ⟨htask, hsent, hresponse⟩ := h.unserved c stream hs hold
      exact ⟨htask, hsent, fun hne => hresponse fun hcnone => hne (hcli.mpr hcnone)⟩

end

/-- What holds of every request in every reachable state. -/
structure Own (proxy : ProxyState) (client : HttpClient η) (server : Deployment.State)
    (l : Local η) : Prop where
  arrived : Arrived proxy l
  piped : Piped server l
  exchanged : Exchanged proxy client server l

variable {proxy : ProxyState} {machines : Machines η ω} {world : ω} {s s' : State η ω}

theorem own_init (proxy : ProxyState) (client : HttpClient η) (world : ω) (r : ℕ) :
    Own proxy client (init (η := η) proxy.publicUrl world).server
      ((init proxy.publicUrl world).at r) := by
  refine ⟨⟨?_, ?_, ?_, ?_, ?_, ?_⟩, ⟨?_, ?_, ?_, ?_⟩, ⟨?_, ?_, ?_, ?_, ?_⟩⟩
  all_goals
    simp [init, State.at, State.sent, State.machines, Deployment.init, frameOf, streamOn, isRelayed]

theorem own_of_reachable (hs : (system proxy machines world).Reachable s) (r : ℕ) :
    Own proxy machines.client s.server (s.at r) := by
  have hall : ∀ r, Own proxy machines.client s.server (s.at r) := by
    apply hs.invariant
    · exact own_init proxy machines.client world
    · intro s ev s' hreach h hstep r
      have hserver := reachable_server hreach
      have hcons := consistent_of_reachable hserver
      have hannounced : ∀ c, (s.at r).request.connection = some c →
          ∃ id hello, Announced s.server id c hello := by
        intro c hc
        obtain ⟨id, hello, -, ha⟩ := (routed_of_reachable hserver).connection r c hc
        exact ⟨id, hello, ha⟩
      have hlocal : Own proxy machines.client s.server (s'.at r) := by
        obtain ⟨harrived, hpiped, hexchanged⟩ := h r
        rcases localMove_of_step hstep r with hsame | hm
        · rw [hsame]
          exact ⟨harrived, hpiped, hexchanged⟩
        · exact ⟨harrived.localMove hm, hpiped.localMove harrived hannounced hm,
            hexchanged.localMove harrived hpiped hm⟩
      rcases server_cases hstep with hsame | ⟨e, he⟩
      · rw [hsame]
        exact hlocal
      · have hm := move_of_step he
        exact ⟨hlocal.arrived, hlocal.piped.move hcons hm, hlocal.exchanged.move hlocal.piped hm⟩
  exact hall r

end Mobilink.Deployment.Traffic
