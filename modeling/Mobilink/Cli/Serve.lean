import Mobilink.Cli.Stream
import Mobilink.Core.Quic

/-! `serve`: a task for every request stream that the server opens, cut at every point where it waits
for the network or for the local server, and what the stream then says of the replay. -/
namespace Mobilink.Cli
open Mobilink.Core Redirects

variable {η ω : Type*}

/-- Where `handle_stream` stands. -/
inductive StreamTask (η : Type*) where
  | reading
  | replaying (limit : ℕ) (q : Outgoing η)
  | replying (response : HttpResponseData)
  | finishing
  | returned
  | failed

/-- A bidirectional stream that the server opened. It has a task once `serve` has accepted it. -/
structure RequestStream (η : Type*) where
  request : Option Stream
  response : Option Stream
  task : Option (StreamTask η)

/-- What the loop or a task waits for, with the answer of the network where there is one. -/
inductive StreamEvent where
  | acceptBi
  | readToEnd (ok : Bool)
  | exchange
  | writeAll (ok : Bool)
  | finish (ok : Bool)

/-- One request that the HTTP client sent, and the answer that it got. -/
abbrev Exchange (η : Type*) := Outgoing η × Option Reply

section

variable (client : HttpClient η) (port : UInt16)

/-- The response that `replay_locally` makes of the end of its request. -/
def relayed : Except Failure Reply → HttpResponseData
  | .ok reply => reply.toFrame
  | .error failure => errorFrame port (client.describe (.send failure))

def StreamTask.ofProgress : Progress (Outgoing η) Reply → StreamTask η
  | .sending limit q => .replaying limit q
  | .ended result => .replying (relayed client port result)

/-- `replay_locally` up to its first exchange. -/
def StreamTask.replay (request : HttpRequestData) : StreamTask η :=
  match buildRequest client port request with
  | .error e => .replying (errorFrame port (client.describe e))
  | .ok q => .replaying redirectLimit q

end

namespace RequestStream

def opened : RequestStream η := ⟨none, none, none⟩

/-- A task that returns early drops its half of the stream, which finishes it with nothing in it. -/
def abandon (s : RequestStream η) : RequestStream η :=
  { s with response := some ⟨[], true⟩, task := some .failed }

def receive (client : HttpClient η) (port : UInt16) (s : RequestStream η) (bytes : List UInt8) :
    RequestStream η :=
  match receiveRequest bytes with
  | none => s.abandon
  | some request => { s with task := some (.replay client port request) }

/-- The loop of `serve` accepts a stream when something has been written on it; the other steps are
the body of `handle_stream`. The list has the exchange of this step, if it is one. -/
def step (client : HttpClient η) (exchange : ω → Outgoing η → ω × Option Reply) (port : UInt16)
    (w : ω) (s : RequestStream η) (e : StreamEvent) :
    Option (ω × RequestStream η × List (Exchange η)) :=
  match s.task, e with
  | none, .acceptBi =>
    if s.request.isSome then some (w, { s with task := some .reading }, []) else none
  | some .reading, .readToEnd false => some (w, s.abandon, [])
  | some .reading, .readToEnd true =>
    (Stream.delivered s.request).map fun bytes => (w, s.receive client port bytes, [])
  | some (.replaying limit q), .exchange =>
    let out := exchange w q
    some (out.1, { s with
      task := some (.ofProgress client port (answered client.follow limit q out.2)) }, [(q, out.2)])
  | some (.replying response), .writeAll ok =>
    match Wire.encode response with
    | none => some (w, s.abandon, [])
    | some bytes =>
      if ok then some (w, { s with response := some ⟨bytes, false⟩, task := some .finishing }, [])
      else some (w, { s with task := some .failed }, [])
  | some .finishing, .finish ok =>
    if ok then
      some (w, { s with response := s.response.map Stream.finish, task := some .returned }, [])
    else some (w, { s with task := some .failed }, [])
  | _, _ => none

/-- Everything that one step of a stream can be. -/
inductive Move (client : HttpClient η) (exchange : ω → Outgoing η → ω × Option Reply)
    (port : UInt16) (w : ω) (s : RequestStream η) :
    StreamEvent → ω → RequestStream η → List (Exchange η) → Prop where
  | accepts (htask : s.task = none) (hrequest : s.request.isSome = true) :
    Move client exchange port w s .acceptBi w { s with task := some .reading } []
  | breaksOff (htask : s.task = some .reading) :
    Move client exchange port w s (.readToEnd false) w s.abandon []
  | reads {bytes : List UInt8} (htask : s.task = some .reading)
      (hrequest : Stream.delivered s.request = some bytes) :
    Move client exchange port w s (.readToEnd true) w (s.receive client port bytes) []
  | exchanges {limit : ℕ} {q : Outgoing η} (htask : s.task = some (.replaying limit q)) :
    Move client exchange port w s .exchange (exchange w q).1
      { s with task := some (.ofProgress client port
          (answered client.follow limit q (exchange w q).2)) } [(q, (exchange w q).2)]
  | writes {response : HttpResponseData} (htask : s.task = some (.replying response)) :
    Move client exchange port w s (.writeAll true) w
      { s with response := some ⟨HttpResponseData.codec.encode response, false⟩,
               task := some .finishing } []
  | isStopped {response : HttpResponseData} (htask : s.task = some (.replying response)) :
    Move client exchange port w s (.writeAll false) w { s with task := some .failed } []
  | finishes (htask : s.task = some .finishing) :
    Move client exchange port w s (.finish true) w
      { s with response := s.response.map Stream.finish, task := some .returned } []
  | isUnfinished (htask : s.task = some .finishing) :
    Move client exchange port w s (.finish false) w { s with task := some .failed } []

section

variable {client : HttpClient η} {exchange : ω → Outgoing η → ω × Option Reply} {port : UInt16}
  {w w' : ω} {s s' : RequestStream η} {e : StreamEvent} {new : List (Exchange η)}

/-- A step is one of these: `wire::encode` never fails. -/
theorem move_of_step (h : s.step client exchange port w e = some (w', s', new)) :
    Move client exchange port w s e w' s' new := by
  have hsame : ∀ {w₁ : ω} {s₁ : RequestStream η} {new₁ : List (Exchange η)},
      some (w₁, s₁, new₁) = some (w', s', new) → Move client exchange port w s e w₁ s₁ new₁ →
      Move client exchange port w s e w' s' new := by
    intro w₁ s₁ new₁ heq hm
    simp only [Option.some.injEq, Prod.mk.injEq] at heq
    rw [← heq.1, ← heq.2.1, ← heq.2.2]
    exact hm
  unfold step at h
  split at h
  · rename_i htask
    split_ifs at h with hrequest
    exact hsame h (.accepts htask hrequest)
  · rename_i htask
    exact hsame h (.breaksOff htask)
  · rename_i htask
    obtain ⟨bytes, hbytes, hmap⟩ := Option.map_eq_some_iff.mp h
    exact hsame (congrArg some hmap) (.reads htask hbytes)
  · rename_i htask
    exact hsame h (.exchanges htask)
  · rename_i response ok htask
    rw [Wire.encode_eq] at h
    cases ok with
    | true => exact hsame h (.writes htask)
    | false => exact hsame h (.isStopped htask)
  · rename_i ok htask
    cases ok with
    | true => exact hsame h (.finishes htask)
    | false => exact hsame h (.isUnfinished htask)
  · exact absurd h (by simp)

/-- A task only reads what the server has written. -/
theorem request_step (h : s.step client exchange port w e = some (w', s', new)) :
    s'.request = s.request := by
  cases move_of_step h with
  | @reads bytes _ _ =>
    rw [receive]
    split <;> rfl
  | _ => rfl

end

end RequestStream

/-! ### What a replay amounts to -/

/-- The exchanges that the replay of a request makes, and the response that it ends with. -/
inductive Replayed (client : HttpClient η) (port : UInt16) (request : HttpRequestData) :
    List (Exchange η) → HttpResponseData → Prop where
  | refused {e : ReplayError} (h : buildRequest client port request = .error e) :
    Replayed client port request [] (errorFrame port (client.describe e))
  | sent {q : Outgoing η} {es : List (Exchange η)} {result : Except Failure Reply}
      (h : buildRequest client port request = .ok q)
      (hes : Exchanged client.follow (.sending redirectLimit q) es (.ended result)) :
    Replayed client port request es (relayed client port result)

/-- The exchanges of a replay that may still be under way. -/
def Begun (client : HttpClient η) (port : UInt16) (request : HttpRequestData)
    (es : List (Exchange η)) : Prop :=
  es = [] ∨ ∃ q p, buildRequest client port request = .ok q ∧
    Exchanged client.follow (.sending redirectLimit q) es p

theorem Replayed.begun {client : HttpClient η} {port : UInt16} {request : HttpRequestData}
    {es : List (Exchange η)} {response : HttpResponseData}
    (h : Replayed client port request es response) : Begun client port request es := by
  cases h with
  | refused _ => exact Or.inl rfl
  | sent hq hes => exact Or.inr ⟨_, _, hq, hes⟩

/-- A request reaches the local network at most eleven times, and first as it was built. -/
theorem Begun.length_le {client : HttpClient η} {port : UInt16} {request : HttpRequestData}
    {es : List (Exchange η)} (h : Begun client port request es) :
    es.length ≤ redirectLimit + 1 ∧
      ∀ first ∈ es.head?, buildRequest client port request = .ok first.1 := by
  obtain rfl | ⟨q, p, hq, hes⟩ := h
  · simp
  · refine ⟨hes.length_le, ?_⟩
    obtain ⟨rfl, -⟩ | ⟨a, rest, rfl⟩ := hes.head_cases
    · simp
    · simpa using hq

/-- Once an answer is not followed, the request is sent no more. -/
theorem Begun.rest_eq_nil {client : HttpClient η} {port : UInt16} {request : HttpRequestData}
    {es : List (Exchange η)} (h : Begun client port request es) {q : Outgoing η} {a : Reply}
    {rest : List (Exchange η)} (hes : es = (q, some a) :: rest) (hfollow : client.follow q a = none) :
    rest = [] := by
  obtain rfl | ⟨first, p, -, hexchanged⟩ := h
  · exact absurd hes (by simp)
  · obtain ⟨rfl, -⟩ | ⟨b, rest', hes'⟩ := hexchanged.head_cases
    · exact absurd hes (by simp)
    · obtain ⟨hhead, -⟩ := List.cons.inj (hes.symm.trans hes')
      obtain ⟨hq, -⟩ := Prod.mk.inj hhead
      rw [hes, ← hq] at hexchanged
      exact (hexchanged.eq_singleton hfollow).1

/-! ### What a stream says of its replay -/

/-- A stream of which the task has come this far has made these exchanges. -/
inductive Served (client : HttpClient η) (port : UInt16) :
    RequestStream η → List (Exchange η) → Prop where
  | waiting {request : Option Stream} : Served client port ⟨request, none, none⟩ []
  | reading {request : Stream} : Served client port ⟨some request, none, some .reading⟩ []
  | abandoned {request : Stream} :
    Served client port ⟨some request, some ⟨[], true⟩, some .failed⟩ []
  | replaying {bytes : List UInt8} {request : HttpRequestData} {q q' : Outgoing η} {limit : ℕ}
      {es : List (Exchange η)} (hrequest : receiveRequest bytes = some request)
      (hq : buildRequest client port request = .ok q)
      (hes : Exchanged client.follow (.sending redirectLimit q) es (.sending limit q')) :
    Served client port ⟨some ⟨bytes, true⟩, none, some (.replaying limit q')⟩ es
  | replying {bytes : List UInt8} {request : HttpRequestData} {es : List (Exchange η)}
      {response : HttpResponseData} (hrequest : receiveRequest bytes = some request)
      (h : Replayed client port request es response) :
    Served client port ⟨some ⟨bytes, true⟩, none, some (.replying response)⟩ es
  | replied {bytes : List UInt8} {request : HttpRequestData} {es : List (Exchange η)}
      {response : HttpResponseData} {finished : Bool} {task : StreamTask η}
      (hrequest : receiveRequest bytes = some request)
      (h : Replayed client port request es response)
      (htask : task = .finishing ∨ task = .returned ∨ task = .failed) :
    Served client port
      ⟨some ⟨bytes, true⟩, some ⟨HttpResponseData.codec.encode response, finished⟩, some task⟩ es
  | lost {bytes : List UInt8} {request : HttpRequestData} {es : List (Exchange η)}
      {response : HttpResponseData} (hrequest : receiveRequest bytes = some request)
      (h : Replayed client port request es response) :
    Served client port ⟨some ⟨bytes, true⟩, none, some .failed⟩ es

namespace Served

variable {client : HttpClient η} {port : UInt16} {s s' : RequestStream η} {es : List (Exchange η)}

/-- The server writes its request frame. -/
theorem writeRequest (h : Served client port s es) (hs : s.request = none) (frame : List UInt8) :
    Served client port { s with request := some ⟨frame, false⟩ } es := by
  cases h with
  | waiting => exact .waiting
  | _ => exact absurd hs (by simp)

theorem finishRequest (h : Served client port s es) :
    Served client port { s with request := s.request.map Stream.finish } es := by
  cases h with
  | waiting => exact .waiting
  | reading => exact .reading
  | abandoned => exact .abandoned
  | replaying hrequest hq hes => exact .replaying hrequest hq hes
  | replying hrequest h => exact .replying hrequest h
  | replied hrequest h htask => exact .replied hrequest h htask
  | lost hrequest h => exact .lost hrequest h

theorem receive {request : Stream} {bytes : List UInt8} (hrequest : request = ⟨bytes, true⟩) :
    Served client port
      (RequestStream.receive client port ⟨some request, none, some .reading⟩ bytes) [] := by
  rw [RequestStream.receive]
  cases hdata : receiveRequest bytes with
  | none => exact .abandoned
  | some data =>
    rw [hrequest]
    dsimp only [StreamTask.replay]
    cases hq : buildRequest client port data with
    | error e => exact .replying hdata (.refused hq)
    | ok q => exact .replaying hdata hq .start

theorem ofProgress {bytes : List UInt8} {request : HttpRequestData} {q : Outgoing η}
    {p : Progress (Outgoing η) Reply} (hrequest : receiveRequest bytes = some request)
    (hq : buildRequest client port request = .ok q)
    (hes : Exchanged client.follow (.sending redirectLimit q) es p) :
    Served client port ⟨some ⟨bytes, true⟩, none, some (.ofProgress client port p)⟩ es := by
  cases p with
  | sending limit q' => exact .replaying hrequest hq hes
  | ended result => exact .replying hrequest (.sent hq hes)

private theorem some_eq {w w' : ω} {new new' : List (Exchange η)}
    (h : some (w, s, new) = some (w', s', new')) : s = s' ∧ new = new' := by
  simp only [Option.some.injEq, Prod.mk.injEq] at h
  exact h.2

theorem step {exchange : ω → Outgoing η → ω × Option Reply} {w w' : ω} {e : StreamEvent}
    {new : List (Exchange η)} (h : Served client port s es)
    (hstep : s.step client exchange port w e = some (w', s', new)) :
    Served client port s' (es ++ new) := by
  cases h with
  | @waiting request =>
    cases e with
    | acceptBi =>
      cases request with
      | none => exact absurd hstep (by simp [RequestStream.step])
      | some request =>
        obtain ⟨rfl, rfl⟩ := some_eq hstep
        exact .reading
    | _ => exact absurd hstep (by simp [RequestStream.step])
  | @reading request =>
    cases e with
    | readToEnd ok =>
      cases ok with
      | false =>
        obtain ⟨rfl, rfl⟩ := some_eq hstep
        exact .abandoned
      | true =>
        obtain ⟨bytes, hbytes, hmap⟩ := Option.map_eq_some_iff.mp hstep
        obtain ⟨rfl, rfl⟩ := some_eq (congrArg some hmap)
        have hrequest := Stream.delivered_eq_some hbytes
        exact receive (Option.some.inj hrequest)
    | _ => exact absurd hstep (by simp [RequestStream.step])
  | abandoned => cases e <;> exact absurd hstep (by simp [RequestStream.step])
  | replaying hrequest hq hes =>
    cases e with
    | exchange =>
      obtain ⟨rfl, rfl⟩ := some_eq hstep
      exact ofProgress hrequest hq (hes.next _)
    | _ => exact absurd hstep (by simp [RequestStream.step])
  | @replying bytes request es response hrequest hreplay =>
    cases e with
    | writeAll ok =>
      simp only [RequestStream.step, Wire.encode_eq] at hstep
      cases ok with
      | false =>
        obtain ⟨rfl, rfl⟩ := some_eq hstep
        rw [List.append_nil]
        exact .lost hrequest hreplay
      | true =>
        obtain ⟨rfl, rfl⟩ := some_eq hstep
        rw [List.append_nil]
        exact .replied hrequest hreplay (Or.inl rfl)
    | _ => exact absurd hstep (by simp [RequestStream.step])
  | replied hrequest hreplay htask =>
    obtain rfl | rfl | rfl := htask
    · cases e with
      | finish ok =>
        cases ok with
        | false =>
          obtain ⟨rfl, rfl⟩ := some_eq hstep
          rw [List.append_nil]
          exact .replied hrequest hreplay (Or.inr (Or.inr rfl))
        | true =>
          obtain ⟨rfl, rfl⟩ := some_eq hstep
          rw [List.append_nil]
          exact .replied hrequest hreplay (Or.inr (Or.inl rfl))
      | _ => exact absurd hstep (by simp [RequestStream.step])
    · cases e <;> exact absurd hstep (by simp [RequestStream.step])
    · cases e <;> exact absurd hstep (by simp [RequestStream.step])
  | lost hrequest hreplay => cases e <;> exact absurd hstep (by simp [RequestStream.step])

/-- What has arrived at the server stays there. -/
theorem delivered_step {exchange : ω → Outgoing η → ω × Option Reply} {w w' : ω} {e : StreamEvent}
    {new : List (Exchange η)} {bytes : List UInt8} (h : Served client port s es)
    (hstep : s.step client exchange port w e = some (w', s', new))
    (hbytes : Stream.delivered s.response = some bytes) :
    Stream.delivered s'.response = some bytes := by
  have hresponse := Stream.delivered_eq_some hbytes
  cases h with
  | abandoned => cases e <;> exact absurd hstep (by simp [RequestStream.step])
  | @replied _ _ _ response finished _ hrequest hreplay htask =>
    obtain ⟨rfl, rfl⟩ : HttpResponseData.codec.encode response = bytes ∧ finished = true := by
      simpa using hresponse
    obtain rfl | rfl | rfl := htask
    · cases e with
      | finish ok =>
        cases ok <;> (obtain ⟨rfl, -⟩ := some_eq hstep; rfl)
      | _ => exact absurd hstep (by simp [RequestStream.step])
    · cases e <;> exact absurd hstep (by simp [RequestStream.step])
    · cases e <;> exact absurd hstep (by simp [RequestStream.step])
  | _ => exact absurd hresponse (by simp)

/-- The exchanges of a stream are those of the request that arrived on it. -/
theorem begun (h : Served client port s es) :
    es = [] ∨ ∃ bytes request, s.request = some ⟨bytes, true⟩ ∧
      receiveRequest bytes = some request ∧ Begun client port request es := by
  cases h with
  | waiting => exact Or.inl rfl
  | reading => exact Or.inl rfl
  | abandoned => exact Or.inl rfl
  | replaying hrequest hq hes => exact Or.inr ⟨_, _, rfl, hrequest, Or.inr ⟨_, _, hq, hes⟩⟩
  | replying hrequest h => exact Or.inr ⟨_, _, rfl, hrequest, h.begun⟩
  | replied hrequest h _ => exact Or.inr ⟨_, _, rfl, hrequest, h.begun⟩
  | lost hrequest h => exact Or.inr ⟨_, _, rfl, hrequest, h.begun⟩

/-- What goes back on a stream is nothing at all, or the replay of the request that arrived on it. -/
theorem delivered {bytes : List UInt8} (h : Served client port s es)
    (hbytes : Stream.delivered s.response = some bytes) :
    bytes = [] ∨ ∃ sent request response, s.request = some ⟨sent, true⟩ ∧
      receiveRequest sent = some request ∧ Replayed client port request es response ∧
      bytes = HttpResponseData.codec.encode response := by
  have hresponse := Stream.delivered_eq_some hbytes
  cases h with
  | abandoned =>
    left
    simpa using hresponse.symm
  | replied hrequest hreplay _ =>
    right
    refine ⟨_, _, _, rfl, hrequest, hreplay, ?_⟩
    simp only [Option.some.injEq, Stream.mk.injEq] at hresponse
    exact hresponse.1.symm
  | _ => exact absurd hresponse (by simp)

end Served
end Mobilink.Cli
