import Mathlib.Data.List.Infix
import Mobilink.Core.Http
import Mobilink.Library.Header
import Mobilink.Library.Redirects
import Mobilink.Library.Url

/-! Replaying a request frame against the developer's local server, through an HTTP client whose URL
hosts, redirects and error texts are its own affair. -/
namespace Mobilink.Cli
open Mobilink.Core

variable {η σ ω : Type*}

/-- A request as the HTTP client builds it, before it adds its own defaults. -/
structure Outgoing (η : Type*) where
  method : String
  url : Url η
  headers : Header.Map
  body : List UInt8
  deriving DecidableEq

/-- The answer of an HTTP server. -/
structure Reply where
  status : UInt16
  headers : Header.Map
  body : List UInt8
  deriving DecidableEq

inductive ReplayError where
  | invalidMethod
  | invalidUrl
  | invalidHeader
  | send (failure : Redirects.Failure)
  deriving DecidableEq

/-- How an error displays, and how the errors behind it do. -/
structure ErrorText where
  display : String
  sources : List String

/-- What `reqwest` decides: which hosts are valid, which header lines the user information of a URL
becomes, which answers it follows and where to, and how its errors read. -/
structure HttpClient (η : Type*) where
  parseHost : List Char → Option η
  credentials : List Char → Header.Map
  follow : Outgoing η → Reply → Option (Outgoing η)
  describe : ReplayError → ErrorText

def isMethod (s : String) : Bool := s != "" && s.toList.all Header.isTokenChar

def replayUrl (port : UInt16) (target : String) : String :=
  "http://localhost:" ++ port.toNat.repr ++ target

/-- The client computes these itself from the actual local connection. -/
def isRecomputed (name : String) : Bool :=
  eqIgnoreAsciiCase name "host" || eqIgnoreAsciiCase name "content-length"

def buildLine (line : String × String) : Option (Header.Name × Header.Value) := do
  let name ← Header.Name.ofString? line.1
  let value ← Header.Value.ofString? line.2
  some (name, value)

def buildLines (headers : List (String × String)) : Option Header.Map :=
  (headers.filter fun line => !isRecomputed line.1).mapM buildLine

/-- User information leaves the URL and becomes the first header lines of the request; the lines of
the frame are appended to them. -/
def withCredentials (client : HttpClient η) (request : Outgoing η) : Outgoing η :=
  let credentials := (request.url.userinfo.map client.credentials).getD []
  { request with
    url := { request.url with userinfo := none }
    headers := request.headers.foldl (fun m line => m.append line.1 line.2) credentials }

/-- The request that `try_replay` builds, or what it or the builder refuses. -/
def buildRequest (client : HttpClient η) (port : UInt16) (request : HttpRequestData) :
    Except ReplayError (Outgoing η) :=
  if !isMethod request.method then .error .invalidMethod
  else
    match Url.parse client.parseHost (replayUrl port request.target).toList with
    | none => .error .invalidUrl
    | some url =>
      match buildLines request.headers with
      | none => .error .invalidHeader
      | some headers => .ok (withCredentials client ⟨request.method, url, headers, request.body⟩)

/-- The default policy of the client. -/
def redirectLimit : ℕ := 10

/-- The lines of an answer that are readable text. -/
def readableLines (headers : Header.Map) : List (String × String) :=
  headers.filterMap fun line => line.2.toStr.map fun v => (line.1.text, v)

def Reply.toFrame (reply : Reply) : HttpResponseData :=
  ⟨reply.status, readableLines reply.headers, reply.body⟩

def tryReplay (client : HttpClient η) (exchange : ω → Outgoing η → ω × Option Reply)
    (port : UInt16) (w : ω) (request : HttpRequestData) :
    ω × Except ReplayError HttpResponseData :=
  match buildRequest client port request with
  | .error e => (w, .error e)
  | .ok outgoing =>
    match Redirects.send exchange client.follow redirectLimit w outgoing with
    | (w, .error failure) => (w, .error (.send failure))
    | (w, .ok reply) => (w, .ok reply.toFrame)

def chain (text : ErrorText) : String :=
  text.sources.foldl (fun chain e => chain ++ "\n  caused by: " ++ e) text.display

def errorFrame (port : UInt16) (text : ErrorText) : HttpResponseData where
  status := 502
  headers := [("Content-Type", "text/plain; charset=utf-8")]
  body := ("Mobilink: the local server on port " ++ port.toNat.repr ++ " is unreachable.\n" ++
    chain text ++ "\n").toByteArray.data.toList

def replayLocally (client : HttpClient η) (exchange : ω → Outgoing η → ω × Option Reply)
    (port : UInt16) (w : ω) (request : HttpRequestData) : ω × HttpResponseData :=
  match tryReplay client exchange port w request with
  | (w, .ok response) => (w, response)
  | (w, .error e) => (w, errorFrame port (client.describe e))

theorem buildRequest_eq_ok_iff {client : HttpClient η} {port : UInt16} {request : HttpRequestData}
    {q : Outgoing η} :
    buildRequest client port request = .ok q ↔ isMethod request.method = true ∧ ∃ url headers,
      Url.parse client.parseHost (replayUrl port request.target).toList = some url ∧
      buildLines request.headers = some headers ∧
      q = withCredentials client ⟨request.method, url, headers, request.body⟩ := by
  unfold buildRequest
  cases hm : isMethod request.method with
  | false => simp
  | true =>
    cases hu : Url.parse client.parseHost (replayUrl port request.target).toList with
    | none => simp
    | some url =>
      cases hl : buildLines request.headers with
      | none => simp
      | some headers =>
        simp only [Bool.not_true, Bool.false_eq_true, if_false, Except.ok.injEq, Option.some.injEq,
          true_and]
        constructor
        · exact fun h => ⟨url, headers, rfl, rfl, h.symm⟩
        · intro h
          obtain ⟨_, _, rfl, rfl, hq⟩ := h
          exact hq.symm

/-- A URL without user information leaves the lines as the frame has them, if those of a name stand
together. -/
theorem headers_withCredentials {client : HttpClient η} {request : Outgoing η}
    (huserinfo : request.url.userinfo = none) (h : request.headers.Grouped) :
    (withCredentials client request).headers = request.headers := by
  rw [withCredentials, huserinfo]
  exact Header.Map.foldl_append_of_grouped h

/-! ### The local application and the rest of the network -/

/-- The state of the developer's application and the requests it has received. -/
structure World (η σ : Type*) where
  state : σ
  received : List (Outgoing η)

def reaches (localhost : η) (port : UInt16) (q : Outgoing η) : Prop :=
  q.url.host = localhost ∧ q.url.port = port.toNat

/-- The application answers on its port; who answers elsewhere is up to the network. -/
def exchange [DecidableEq η] (localhost : η) (port : UInt16)
    (app : σ → Outgoing η → Reply × σ) (elsewhere : Outgoing η → Option Reply) (w : World η σ)
    (q : Outgoing η) : World η σ × Option Reply :=
  if q.url.host = localhost ∧ q.url.port = port.toNat then
    (⟨(app w.state q).2, w.received ++ [q]⟩, some (app w.state q).1)
  else (w, elsewhere q)

section

variable [DecidableEq η] {localhost : η} {port : UInt16} (app : σ → Outgoing η → Reply × σ)
  (elsewhere : Outgoing η → Option Reply)

theorem exchange_local {q : Outgoing η} (h : reaches localhost port q) (w : World η σ) :
    exchange localhost port app elsewhere w q =
      (⟨(app w.state q).2, w.received ++ [q]⟩, some (app w.state q).1) := if_pos h

theorem exchange_elsewhere {q : Outgoing η} (h : ¬ reaches localhost port q) (w : World η σ) :
    exchange localhost port app elsewhere w q = (w, elsewhere q) := if_neg h

/-- The application never forgets a request. -/
theorem received_prefix_send (client : HttpClient η) (limit : ℕ) (w : World η σ) (q : Outgoing η) :
    w.received <+: (Redirects.send (exchange localhost port app elsewhere) client.follow limit w
      q).1.received := by
  apply Redirects.send_induction (R := fun w w' : World η σ => w.received <+: w'.received)
  · exact fun _ _ _ h h' => h.trans h'
  · intro w q
    by_cases h : reaches localhost port q
    · rw [exchange_local app elsewhere h]
      exact List.prefix_append _ _
    · rw [exchange_elsewhere app elsewhere h]

/-- A request for the application reaches it, whatever the redirects do then. -/
theorem received_send_local (client : HttpClient η) (limit : ℕ) (w : World η σ) {q : Outgoing η}
    (h : reaches localhost port q) :
    w.received ++ [q] <+: (Redirects.send (exchange localhost port app elsewhere) client.follow
      limit w q).1.received := by
  have hex := exchange_local app elsewhere h w
  cases hf : client.follow q (app w.state q).1 with
  | none =>
    rw [Redirects.send_of_answer hex hf]
  | some q' =>
    cases limit with
    | zero =>
      rw [Redirects.send_zero_of_redirect hex hf]
    | succ limit =>
      rw [Redirects.send_of_redirect hex hf]
      exact received_prefix_send app elsewhere client limit
        ⟨(app w.state q).2, w.received ++ [q]⟩ q'

end

end Mobilink.Cli
