import Mobilink.Cli.Local

/-! Whether the answer that the CLI relays is the one its developer's application gave. -/
namespace Mobilink.Cli
open Mobilink.Core

variable {η σ : Type*}

/-- The statuses that a client may follow. -/
def isRedirect (status : UInt16) : Bool := [301, 302, 303, 307, 308].contains status

/-- Exactly the request `q` reached the application, and its answer to `q` is relayed. -/
def RelaysOwnAnswer [DecidableEq η] (client : HttpClient η) (localhost : η) (port : UInt16)
    (app : σ → Outgoing η → Reply × σ) (elsewhere : Outgoing η → Option Reply) (w : World η σ)
    (request : HttpRequestData) (q : Outgoing η) : Prop :=
  let out := replayLocally client (exchange localhost port app elsewhere) port w request
  out.1.received = w.received ++ [q] ∧ out.2 = (app w.state q).1.toFrame

variable {client : HttpClient η} {localhost : η} {port : UInt16} {request : HttpRequestData}
  {q : Outgoing η}

/-- The replay of a request that the builder accepts is what the client makes of it. -/
theorem replayLocally_of_buildRequest {ω : Type*} (hq : buildRequest client port request = .ok q)
    (exchange : ω → Outgoing η → ω × Option Reply) (w : ω) :
    replayLocally client exchange port w request =
      match Redirects.send exchange client.follow redirectLimit w q with
      | (w, .error failure) => (w, errorFrame port (client.describe (.send failure)))
      | (w, .ok reply) => (w, reply.toFrame) := by
  unfold replayLocally tryReplay
  rw [hq]
  dsimp only
  cases Redirects.send exchange client.follow redirectLimit w q with
  | mk w' result => cases result <;> rfl

theorem replayLocally_received {ω : Type*} (hq : buildRequest client port request = .ok q)
    (exchange : ω → Outgoing η → ω × Option Reply) (w : ω) :
    (replayLocally client exchange port w request).1 =
      (Redirects.send exchange client.follow redirectLimit w q).1 := by
  rw [replayLocally_of_buildRequest hq]
  cases Redirects.send exchange client.follow redirectLimit w q with
  | mk w' result => cases result <;> rfl

/-- The application's own answer is relayed, whatever the rest of the network does, exactly when the
client does not follow that answer. -/
theorem relaysOwnAnswer_iff [DecidableEq η]
    (hfollow : ∀ q a q', client.follow q a = some q' → isRedirect a.status = true)
    (app : σ → Outgoing η → Reply × σ) (w : World η σ)
    (hq : buildRequest client port request = .ok q) (hlocal : reaches localhost port q) :
    (∀ elsewhere, RelaysOwnAnswer client localhost port app elsewhere w request q) ↔
      client.follow q (app w.state q).1 = none := by
  constructor
  · intro hall
    by_contra hne
    obtain ⟨q', hq'⟩ := Option.ne_none_iff_exists'.mp hne
    have hredirect := hfollow _ _ _ hq'
    let ok : Reply := ⟨200, [], []⟩
    have hok : client.follow q' ok = none := by
      cases hf : client.follow q' ok with
      | none => rfl
      | some q'' => exact absurd (hfollow _ _ _ hf) (by decide)
    obtain ⟨hreceived, hframe⟩ := hall fun _ => some ok
    have hfirst := exchange_local app (fun _ => some ok) hlocal w
    have hsend := Redirects.send_of_redirect hfirst hq' 9
    by_cases hlocal' : reaches localhost port q'
    · -- The redirect leads back: the application receives a second request.
      have htwo := received_send_local app (fun _ => some ok) client 9
        ⟨(app w.state q).2, w.received ++ [q]⟩ hlocal'
      have hreplay := replayLocally_received hq (exchange localhost port app fun _ => some ok) w
      rw [show redirectLimit = 9 + 1 from rfl, hsend] at hreplay
      rw [← hreplay, hreceived] at htwo
      have hlength := htwo.length_le
      simp at hlength
    · -- It leads elsewhere, where an answer that is no redirect can be waiting.
      have hsecond := exchange_elsewhere app (fun _ => some ok) hlocal'
        ⟨(app w.state q).2, w.received ++ [q]⟩
      have hend := Redirects.send_of_answer hsecond hok 9
      rw [hend] at hsend
      rw [replayLocally_of_buildRequest hq, show redirectLimit = 9 + 1 from rfl, hsend] at hframe
      have hstatus : (200 : UInt16) = (app w.state q).1.status :=
        congrArg HttpResponseData.status hframe
      rw [← hstatus] at hredirect
      exact absurd hredirect (by decide)
  · intro hnone elsewhere
    have hsend := Redirects.send_of_answer
      (exchange_local app elsewhere hlocal w) hnone redirectLimit
    unfold RelaysOwnAnswer
    rw [replayLocally_of_buildRequest hq, hsend]
    exact ⟨rfl, rfl⟩

/-- A client for the runs below, on whose answers it does what `reqwest` does: a `302` that locates
`/home` turns the login into `GET /home`. -/
def followHome : HttpClient String where
  parseHost s := if s = "localhost".toList then some "localhost" else none
  credentials _ := []
  follow q a :=
    if a.status = 302 ∧ (a.headers.get "location").bind Header.Value.toStr = some "/home" then
      some ⟨"GET", { q.url with rest := "/home".toList },
        (⟨"referer", by decide⟩,
          ⟨"http://localhost:3000/login".toByteArray.data.toList, by decide⟩) ::
          q.headers, []⟩
    else none
  describe _ := ⟨"error", []⟩

/-- A page for every `GET`, and a redirect with a session cookie for every login. -/
def loginApp (_ : Unit) (q : Outgoing String) : Reply × Unit :=
  if q.method = "GET" then (⟨200, [], "hi".toByteArray.data.toList⟩, ())
  else (⟨302, [(⟨"location", by decide⟩, ⟨"/home".toByteArray.data.toList, by decide⟩),
    (⟨"set-cookie", by decide⟩, ⟨"sid=1".toByteArray.data.toList, by decide⟩)], []⟩, ())

/-- The application answers a login with a redirect and a session cookie. The client follows the
redirect: the browser gets the page behind it, and no cookie. -/
theorem login_redirect_followed :
    let request : HttpRequestData := ⟨"POST", "/login", [], [1]⟩
    let q : Outgoing String := ⟨"POST", ⟨none, "localhost", 3000, "/login".toList⟩, [], [1]⟩
    let out := replayLocally followHome (exchange "localhost" 3000 loginApp fun _ => none) 3000
      ⟨(), []⟩ request
    buildRequest followHome 3000 request = .ok q ∧ reaches "localhost" 3000 q ∧
      (loginApp () q).1.toFrame = ⟨302, [("location", "/home"), ("set-cookie", "sid=1")], []⟩ ∧
      out.1.received.map Outgoing.method = ["POST", "GET"] ∧
      out.2 = ⟨200, [], "hi".toByteArray.data.toList⟩ ∧
      ¬ RelaysOwnAnswer followHome "localhost" 3000 loginApp (fun _ => none) ⟨(), []⟩ request
        q := by
  intro request q out
  have hq : buildRequest followHome 3000 request = .ok q := by decide
  have hanswer : (loginApp () q).1.toFrame =
      ⟨302, [("location", "/home"), ("set-cookie", "sid=1")], []⟩ := by decide
  have hreceived : out.1.received.map Outgoing.method = ["POST", "GET"] := by decide
  have hframe : out.2 = ⟨200, [], "hi".toByteArray.data.toList⟩ := by decide
  refine ⟨hq, ⟨rfl, rfl⟩, hanswer, hreceived, hframe, ?_⟩
  intro hrelays
  have hsame := hrelays.2
  change out.2 = _ at hsame
  rw [hframe, hanswer] at hsame
  exact absurd hsame (by decide)

/-- A page of that application is relayed as it is, whatever the rest of the network does. -/
theorem relaysOwnAnswer_iff_page :
    let request : HttpRequestData := ⟨"GET", "/home", [("accept", "text/html")], []⟩
    let q : Outgoing String := ⟨"GET", ⟨none, "localhost", 3000, "/home".toList⟩,
      [(⟨"accept", by decide⟩, ⟨"text/html".toByteArray.data.toList, by decide⟩)], []⟩
    ∀ elsewhere, RelaysOwnAnswer followHome "localhost" 3000 loginApp elsewhere ⟨(), []⟩ request
      q := by
  intro request q
  have hq : buildRequest followHome 3000 request = .ok q := by decide
  have hfollow : ∀ q a q', followHome.follow q a = some q' → isRedirect a.status = true := by
    intro q a q' h
    simp only [followHome] at h
    split_ifs at h with hand
    rw [hand.1]
    decide
  exact (relaysOwnAnswer_iff hfollow loginApp ⟨(), []⟩ hq ⟨rfl, rfl⟩).mpr (by decide)

end Mobilink.Cli
