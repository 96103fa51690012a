import Mobilink.Cli.Serve
import Mobilink.Library.Ranked

/-! A stream whose task nothing interrupts: its steps are bounded, and if nothing is lost on it they
do what `handle_stream` does in one piece. -/
namespace Mobilink.Cli
open Mobilink.Core Redirects

variable {η ω : Type*}

/-! ### The steps that a task has left -/

def StreamTask.rank : Option (StreamTask η) → ℕ
  | none => redirectLimit + 5
  | some .reading => redirectLimit + 4
  | some (.replaying limit _) => limit + 3
  | some (.replying _) => 2
  | some .finishing => 1
  | some .returned | some .failed => 0

theorem StreamTask.rank_ofProgress (client : HttpClient η) (port : UInt16) (limit : ℕ)
    (q : Outgoing η) (a : Option Reply) :
    rank (some (.ofProgress client port (answered client.follow limit q a))) < limit + 3 := by
  cases a with
  | none => simp [answered, ofProgress, rank]
  | some a =>
    simp only [answered]
    cases client.follow q a with
    | none => simp [ofProgress, rank]
    | some q' =>
      cases limit with
      | zero => simp [ofProgress, rank]
      | succ limit => simp [ofProgress, rank]

namespace RequestStream

section

variable {client : HttpClient η} {exchange : ω → Outgoing η → ω × Option Reply} {port : UInt16}
  {w w' : ω} {x x' : RequestStream η} {e : StreamEvent} {new : List (Exchange η)}

/-- Every step uses up some of the task, and leaves what has been written. -/
theorem rank_step (h : x.step client exchange port w e = some (w', x', new)) :
    StreamTask.rank x'.task < StreamTask.rank x.task ∧
      (x.response.isSome = true → x'.response.isSome = true) := by
  cases move_of_step h with
  | accepts htask _ => exact ⟨by simp [htask, StreamTask.rank], id⟩
  | breaksOff htask => exact ⟨by simp [htask, StreamTask.rank, abandon], fun _ => rfl⟩
  | @reads bytes htask _ =>
    rw [receive]
    cases receiveRequest bytes with
    | none => exact ⟨by simp [htask, StreamTask.rank, abandon], fun _ => rfl⟩
    | some request =>
      refine ⟨?_, id⟩
      dsimp only [StreamTask.replay]
      cases buildRequest client port request <;> simp [htask, StreamTask.rank]
  | @exchanges limit q htask =>
    rw [htask]
    exact ⟨StreamTask.rank_ofProgress client port limit q _, id⟩
  | writes htask => exact ⟨by simp [htask, StreamTask.rank], fun _ => rfl⟩
  | isStopped htask | isUnfinished htask => exact ⟨by simp [htask, StreamTask.rank], id⟩
  | finishes htask => exact ⟨by simp [htask, StreamTask.rank], by simp⟩

end

end RequestStream

/-! ### Streams on which nothing is lost -/

def streamLossOf : StreamEvent → Bool
  | .readToEnd ok | .writeAll ok | .finish ok => !ok
  | _ => false

/-- A task that has not written anything back yet, or none at all. -/
def isPending : Option (StreamTask η) → Bool
  | none | some .reading | some (.replaying _ _) | some (.replying _) => true
  | _ => false

/-- A stream on which nothing has been lost: what a task has written is still on it, and the task
has given up only on a frame that it could not decode. A peer without a task has written all of its
answer or nothing. -/
inductive Kept (x : RequestStream η) : Prop where
  | pending (h : isPending x.task = true)
      (hresponse : x.response = none ∨ (Stream.delivered x.response).isSome = true)
  | finishing (h : x.task = some .finishing) (hresponse : x.response.isSome = true)
  | returned (h : x.task = some .returned) (hresponse : (Stream.delivered x.response).isSome = true)
  | refused {sent : List UInt8} (h : x.task = some .failed) (hrequest : x.request = some ⟨sent, true⟩)
      (hreceived : receiveRequest sent = none)
      (hresponse : (Stream.delivered x.response).isSome = true)

theorem isPending_replay (client : HttpClient η) (port : UInt16) (request : HttpRequestData) :
    isPending (some (.replay client port request)) = true := by
  rw [StreamTask.replay]
  cases buildRequest client port request <;> rfl

theorem isPending_ofProgress (client : HttpClient η) (port : UInt16)
    (p : Redirects.Progress (Outgoing η) Reply) :
    isPending (some (.ofProgress client port p)) = true := by
  cases p <;> rfl

theorem Kept.step {client : HttpClient η} {exchange : ω → Outgoing η → ω × Option Reply}
    {port : UInt16} {w w' : ω} {x x' : RequestStream η} {e : StreamEvent} {new : List (Exchange η)}
    (h : Kept x) (hstep : x.step client exchange port w e = some (w', x', new))
    (hloss : streamLossOf e = false) : Kept x' := by
  have hpending : isPending x.task = true →
      x.response = none ∨ (Stream.delivered x.response).isSome = true := by
    intro hpending
    cases h with
    | pending _ hresponse => exact hresponse
    | finishing h _ | returned h _ | refused h _ _ _ =>
      rw [h] at hpending
      exact absurd hpending (by simp [isPending])
  cases RequestStream.move_of_step hstep with
  | accepts htask _ => exact .pending rfl (hpending (by rw [htask]; rfl))
  | @reads bytes htask hbytes =>
    rw [RequestStream.receive]
    cases hreceived : receiveRequest bytes with
    | none => exact .refused rfl (Stream.delivered_eq_some hbytes) hreceived rfl
    | some request =>
      exact .pending (isPending_replay client port request) (hpending (by rw [htask]; rfl))
  | exchanges htask =>
    exact .pending (isPending_ofProgress client port _) (hpending (by rw [htask]; rfl))
  | writes _ => exact .finishing rfl rfl
  | finishes htask =>
    cases h with
    | finishing _ hresponse =>
      obtain ⟨response, hwritten⟩ := Option.isSome_iff_exists.mp hresponse
      exact .returned rfl (by rw [hwritten]; rfl)
    | pending h _ =>
      rw [htask] at h
      exact absurd h (by simp [isPending])
    | returned h _ | refused h _ _ _ => exact absurd (htask.symm.trans h) (by simp)
  | breaksOff _ | isStopped _ | isUnfinished _ => exact absurd hloss (by simp [streamLossOf])

/-- The server writes on a stream, or finishes its half. -/
theorem Kept.withRequest {x : RequestStream η} (h : Kept x) (request : Option Stream)
    (hsame : ∀ sent, x.request = some ⟨sent, true⟩ → request = x.request) :
    Kept { x with request } := by
  cases h with
  | pending h hresponse => exact .pending h hresponse
  | finishing h hresponse => exact .finishing h hresponse
  | returned h hresponse => exact .returned h hresponse
  | refused h hrequest hreceived hresponse =>
    exact .refused h ((hsame _ hrequest).trans hrequest) hreceived hresponse

/-- Without a loss a CLI answers with nothing at all only if it could not decode the request. -/
theorem answer_of_served {client : HttpClient η} {port : UInt16} {x : RequestStream η}
    {es : List (Exchange η)} {bytes : List UInt8} (h : Served client port x es) (hkept : Kept x)
    (hbytes : Stream.delivered x.response = some bytes) :
    ∃ sent, x.request = some ⟨sent, true⟩ ∧
      ((receiveRequest sent = none ∧ es = [] ∧ bytes = []) ∨ ∃ data own,
        receiveRequest sent = some data ∧ Replayed client port data es own ∧
          bytes = HttpResponseData.codec.encode own) := by
  have hresponse := Stream.delivered_eq_some hbytes
  cases h with
  | abandoned =>
    cases hkept with
    | refused _ hrequest hreceived _ =>
      have hempty : [] = bytes := by simpa using hresponse
      exact ⟨_, hrequest, Or.inl ⟨hreceived, rfl, hempty.symm⟩⟩
    | pending h _ => exact absurd h (by simp [isPending])
    | finishing h _ | returned h _ => exact absurd h (by simp)
  | @replied _ _ _ own finished _ hrequest hreplayed _ =>
    obtain ⟨hown, -⟩ : HttpResponseData.codec.encode own = bytes ∧ finished = true := by
      simpa using hresponse
    exact ⟨_, rfl, Or.inr ⟨_, own, hrequest, hreplayed, hown.symm⟩⟩
  | _ => exact absurd hresponse (by simp)

def hasEnded : Option (StreamTask η) → Bool
  | some .returned | some .failed => true
  | _ => false

theorem Kept.delivered {x : RequestStream η} (h : Kept x) (hended : hasEnded x.task = true) :
    (Stream.delivered x.response).isSome = true := by
  cases h with
  | returned _ hresponse => exact hresponse
  | refused _ _ _ hresponse => exact hresponse
  | finishing h _ =>
    rw [h] at hended
    exact absurd hended (by simp [hasEnded])
  | pending h _ =>
    have hgoing : ∀ t : Option (StreamTask η), isPending t = true → hasEnded t = false := by
      intro t
      unfold isPending
      split <;> simp [hasEnded]
    exact absurd (hended.symm.trans (hgoing x.task h)) (by simp)

section

variable (client : HttpClient η) (exchange : ω → Outgoing η → ω × Option Reply) (port : UInt16)
  (bytes : List UInt8)

/-- A task whose request has arrived waits for nothing but the local server. -/
theorem exists_step (w : ω) {x : RequestStream η} (hrequest : x.request = some ⟨bytes, true⟩)
    (hgoing : hasEnded x.task = false) :
    ∃ e, streamLossOf e = false ∧ (x.step client exchange port w e).isSome = true := by
  unfold hasEnded at hgoing
  cases htask : x.task with
  | none => exact ⟨.acceptBi, rfl, by simp [RequestStream.step, htask, hrequest]⟩
  | some task =>
    cases task with
    | reading =>
      exact ⟨.readToEnd true, rfl, by simp [RequestStream.step, htask, hrequest, Stream.delivered]⟩
    | replaying limit q => exact ⟨.exchange, rfl, by simp [RequestStream.step, htask]⟩
    | replying response =>
      exact ⟨.writeAll true, rfl, by simp [RequestStream.step, htask, Wire.encode_eq]⟩
    | finishing => exact ⟨.finish true, rfl, by simp [RequestStream.step, htask]⟩
    | returned | failed => exact absurd hgoing (by simp [htask])

/-- The stream of one request, with nobody else about. -/
def alone (w : ω) : Transition.System (ω × RequestStream η) StreamEvent where
  init := (w, ⟨some ⟨bytes, true⟩, none, none⟩)
  step t e := (t.2.step client exchange port t.1 e).map fun out => (out.1, out.2.1)

theorem ranked_alone (w : ω) : Transition.Ranked (alone client exchange port bytes w)
    (fun t n => StreamTask.rank t.2.task ≤ n) (fun _ => 0) fun _ => 1 := by
  constructor
  intro t e t' n _ hn hstep
  obtain ⟨⟨w', x', new⟩, hmove, rfl⟩ := Option.map_eq_some_iff.mp hstep
  have hless := (RequestStream.rank_step hmove).1
  exact ⟨StreamTask.rank x'.task, le_rfl, by omega⟩

theorem request_alone {w : ω} {t t' : ω × RequestStream η} {e : StreamEvent}
    (h : t.2.request = some ⟨bytes, true⟩)
    (hstep : (alone client exchange port bytes w).step t e = some t') :
    t'.2.request = some ⟨bytes, true⟩ := by
  obtain ⟨⟨w', x', new⟩, hmove, rfl⟩ := Option.map_eq_some_iff.mp hstep
  exact (RequestStream.request_step hmove).trans h

theorem request_of_run {w : ω} {events : List StreamEvent} {t : ω × RequestStream η}
    (hrun : (alone client exchange port bytes w).run (alone client exchange port bytes w).init
      events = some t) : t.2.request = some ⟨bytes, true⟩ :=
  Transition.System.run_preserves
    (fun _ _ _ h hstep => request_alone client exchange port bytes h hstep) rfl hrun

/-! ### The steps and the one piece -/

/-- What is left of `handle_stream`, in one piece. -/
def remainder (w : ω) (x : RequestStream η) : ω × Option (List UInt8) :=
  match x.task with
  | none | some .reading => handleStream client exchange port w bytes
  | some (.replaying limit q) =>
    let (w, result) := finish exchange client.follow w (.sending limit q)
    (w, Wire.encode (relayed client port result))
  | some (.replying response) => (w, Wire.encode response)
  | some .finishing | some .returned => (w, x.response.map Stream.bytes)
  | some .failed => (w, none)

variable {client exchange port bytes}

theorem remainder_ofProgress (w : ω) (x : RequestStream η) (p : Progress (Outgoing η) Reply) :
    remainder client exchange port bytes w { x with task := some (.ofProgress client port p) } =
      ((finish exchange client.follow w p).1,
        Wire.encode (relayed client port (finish exchange client.follow w p).2)) := by
  cases p <;> rfl

/-- A request that can be built is relayed as it ends. -/
theorem replayLocally_of_ok {w : ω} {request : HttpRequestData} {q : Outgoing η}
    (hq : buildRequest client port request = .ok q) :
    replayLocally client exchange port w request =
      ((send exchange client.follow redirectLimit w q).1,
        relayed client port (send exchange client.follow redirectLimit w q).2) := by
  rw [replayLocally, tryReplay, hq]
  dsimp only
  cases send exchange client.follow redirectLimit w q with
  | mk w' result => cases result <;> rfl

/-- Reading the request frame begins the replay of the request in it. -/
theorem remainder_receive (w : ω) (x : RequestStream η) :
    remainder client exchange port bytes w (x.receive client port bytes) =
      handleStream client exchange port w bytes := by
  rw [RequestStream.receive, handleStream]
  cases receiveRequest bytes with
  | none => rfl
  | some request =>
    dsimp only
    rw [StreamTask.replay]
    cases hq : buildRequest client port request with
    | error e =>
      rw [replayLocally, tryReplay, hq]
      rfl
    | ok q =>
      rw [replayLocally_of_ok hq]
      exact remainder_ofProgress w x (.sending redirectLimit q)

/-- A step without a loss does its part of what was left. -/
theorem remainder_step {w w' : ω} {x x' : RequestStream η} {e : StreamEvent} {new : List (Exchange η)}
    (hrequest : x.request = some ⟨bytes, true⟩) (hloss : streamLossOf e = false)
    (hstep : x.step client exchange port w e = some (w', x', new)) :
    remainder client exchange port bytes w' x' = remainder client exchange port bytes w x := by
  cases RequestStream.move_of_step hstep with
  | accepts htask _ => simp [remainder, htask]
  | reads htask hbytes =>
    rw [hrequest] at hbytes
    obtain rfl := Option.some.inj hbytes
    rw [remainder_receive]
    simp [remainder, htask]
  | @exchanges limit q htask =>
    rw [remainder_ofProgress, finish_answered]
    simp only [remainder, htask, finish]
  | writes htask =>
    simp only [remainder, htask, Wire.encode_eq]
    rfl
  | finishes htask =>
    simp only [remainder, htask, Option.map_map]
    rfl
  | breaksOff _ | isStopped _ | isUnfinished _ => exact absurd hloss (by simp [streamLossOf])

/-- What a run of the stream alone keeps, if nothing is lost in it. -/
structure Tracks (client : HttpClient η) (exchange : ω → Outgoing η → ω × Option Reply)
    (port : UInt16) (bytes : List UInt8) (w : ω) (t : ω × RequestStream η) : Prop where
  request : t.2.request = some ⟨bytes, true⟩
  kept : Kept t.2
  served : ∃ es, Served client port t.2 es
  rest : remainder client exchange port bytes t.1 t.2 = handleStream client exchange port w bytes

theorem tracks_of_run {w : ω} {events : List StreamEvent} {t : ω × RequestStream η}
    (hrun : (alone client exchange port bytes w).run (alone client exchange port bytes w).init
      events = some t) (hlossless : ∀ e ∈ events, streamLossOf e = false) :
    Tracks client exchange port bytes w t := by
  refine Transition.System.run_induction (P := fun past u => (∀ e ∈ past, streamLossOf e = false) →
    Tracks client exchange port bytes w u) ?_ ?_ hrun hlossless
  · exact fun _ => ⟨rfl, .pending rfl (Or.inl rfl), ⟨[], .waiting⟩, rfl⟩
  · intro past u e u' _ hu hstep hlossless
    have h := hu fun e' he' => hlossless e' (List.mem_append_left _ he')
    have hloss := hlossless e (List.mem_append_right _ (List.mem_singleton_self e))
    obtain ⟨⟨w', x', new⟩, hmove, rfl⟩ := Option.map_eq_some_iff.mp hstep
    obtain ⟨es, hserved⟩ := h.served
    exact ⟨(RequestStream.request_step hmove).trans h.request, h.kept.step hmove hloss,
      ⟨_, hserved.step hmove⟩, (remainder_step h.request hloss hmove).trans h.rest⟩

/-- At its end, the stream has what was left to write on it. -/
theorem Tracks.delivered {w : ω} {t : ω × RequestStream η}
    (h : Tracks client exchange port bytes w t) (hended : hasEnded t.2.task = true) :
    t.1 = (handleStream client exchange port w bytes).1 ∧ Stream.delivered t.2.response =
      some ((handleStream client exchange port w bytes).2.getD []) := by
  obtain ⟨w', x⟩ := t
  obtain ⟨hrequest, hkept, ⟨es, hserved⟩, hrest⟩ := h
  dsimp only at hrequest hkept hserved hrest hended ⊢
  rw [← hrest]
  obtain ⟨out, hout⟩ := Option.isSome_iff_exists.mp (hkept.delivered hended)
  obtain ⟨sent, hsent, hcases⟩ := answer_of_served hserved hkept hout
  unfold hasEnded at hended
  split at hended
  · rename_i htask
    rw [remainder, htask, Stream.delivered_eq_some hout]
    exact ⟨rfl, rfl⟩
  · rename_i htask
    rw [remainder, htask, hout]
    rcases hcases with ⟨-, -, rfl⟩ | ⟨_, _, hsome, -⟩
    · exact ⟨rfl, rfl⟩
    · -- A task that nothing interrupted has failed on a request that it could not decode.
      cases hkept with
      | refused _ hsame hreceived _ =>
        obtain rfl := congrArg Stream.bytes (Option.some.inj (hsent.symm.trans hsame))
        exact absurd (hreceived.symm.trans hsome) (by simp)
      | pending h _ => exact absurd (htask ▸ h) (by simp [isPending])
      | finishing h _ | returned h _ => exact absurd (htask.symm.trans h) (by simp)
  · exact absurd hended (by simp)

end

/-- In the steps in which a stream shares the machine with others, and with nobody else about,
`handle_stream` makes fifteen steps at the most, and however far it got, it can be brought to its end
without a loss. Whenever it gets there without one, the local server has seen what it would have seen
of `handle_stream` in one piece, and the same answer is on the stream, or nothing where that gives
none. -/
theorem handleStream_alone {client : HttpClient η} {exchange : ω → Outgoing η → ω × Option Reply}
    {port : UInt16} {w : ω} {bytes : List UInt8} {events : List StreamEvent} {t : ω × RequestStream η}
    (hrun : (alone client exchange port bytes w).run (alone client exchange port bytes w).init
      events = some t) :
    events.length ≤ redirectLimit + 5 ∧
    (∃ more t', (alone client exchange port bytes w).run t more = some t' ∧
      (∀ e ∈ more, streamLossOf e = false) ∧ hasEnded t'.2.task = true) ∧
    ((∀ e ∈ events, streamLossOf e = false) → hasEnded t.2.task = true →
      t.1 = (handleStream client exchange port w bytes).1 ∧ Stream.delivered t.2.response =
        some ((handleStream client exchange port w bytes).2.getD [])) := by
  have hranked := ranked_alone client exchange port bytes w
  refine ⟨?_, ?_, fun hlossless => (tracks_of_run hrun hlossless).delivered⟩
  · have hcount : events.countP (fun _ => true) ≤ redirectLimit + 5 :=
      hranked.countP_le (alone client exchange port bytes w).reachable_init le_rfl hrun
    rwa [List.countP_true] at hcount
  · have hprogress : ∀ t, (alone client exchange port bytes w).Reachable t →
        t.2.request = some ⟨bytes, true⟩ → ¬ hasEnded t.2.task = true →
        ∃ e, streamLossOf e = false ∧
          ((alone client exchange port bytes w).step t e).isSome = true := by
      intro t _ hrequest hgoing
      obtain ⟨e, hloss, hstep⟩ :=
        exists_step client exchange port bytes t.1 hrequest (Bool.eq_false_iff.mpr hgoing)
      exact ⟨e, hloss, by simpa [alone] using hstep⟩
    obtain ⟨more, t', hmore, hlossless, -, hended⟩ := hranked.exists_run _ _ _
      (fun _ _ => Nat.one_pos)
      (fun _ _ _ _ h _ hstep => request_alone client exchange port bytes h hstep) hprogress
      ⟨events, hrun⟩
      (request_of_run client exchange port bytes hrun) le_rfl
    exact ⟨more, t', hmore, hlossless, hended⟩

/-- A task whose request has been answered by the local server. -/
theorem handleStream_alone_answered :
    let bytes := HttpRequestData.codec.encode ⟨"GET", "/", [], []⟩
    let one := alone plainHosts (fun (w : ℕ) _ => (w + 1, some ⟨200, [], [7]⟩)) 3000 bytes 0
    ∃ t more t', one.run one.init [.acceptBi, .readToEnd true, .exchange] = some t ∧ t.1 = 1 ∧
      one.run t more = some t' ∧ (∀ e ∈ more, streamLossOf e = false) ∧
      hasEnded t'.2.task = true := by
  intro bytes one
  have hworld : (one.run one.init [.acceptBi, .readToEnd true, .exchange]).map Prod.fst = some 1 := by
    decide
  obtain ⟨t, ht, hone⟩ := Option.map_eq_some_iff.mp hworld
  obtain ⟨-, ⟨more, t', hmore, hlossless, hended⟩, -⟩ := handleStream_alone ht
  exact ⟨t, more, t', ht, hone, hmore, hlossless, hended⟩

end Mobilink.Cli
