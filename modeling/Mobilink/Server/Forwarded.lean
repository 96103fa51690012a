import Mobilink.Server.Http

/-! The forwarded metadata of a request frame: the scheme and the host under which the application
is reached, resolved from an upstream proxy's lines or else from the server's own. -/
namespace Mobilink.Server
open Mobilink.Core

/-- The first value of a name, if it can be read. -/
def readable (headers : Header.Map) (name : String) : Option String :=
  (headers.get name).bind Header.Value.toStr

def linesOf (name : String) (lines : List (String × String)) : List (String × String) :=
  lines.filter fun line => eqIgnoreAsciiCase line.1 name

/-- An upstream proxy's values win if they can be read. Otherwise the scheme is that of the public
URL and the host that of the request. There is no other line of either name. -/
structure ForwardedResolved (publicUrl : String) (headers : Header.Map)
    (lines : List (String × String)) : Prop where
  proto : linesOf "x-forwarded-proto" lines = [("X-Forwarded-Proto",
    (readable headers "x-forwarded-proto").getD (publicScheme publicUrl))]
  host : linesOf "x-forwarded-host" lines =
    (((readable headers "x-forwarded-host").or (readable headers "host")).map fun host =>
      ("X-Forwarded-Host", host)).toList

/-- An unreadable upstream host hides a readable host of the request. -/
def HidesHost (headers : Header.Map) : Prop :=
  ∃ upstream host, headers.get "x-forwarded-host" = some upstream ∧ headers.get "host" = some host ∧
    upstream.isReadable = false ∧ host.isReadable = true

/-- No line of a name that is not forwarded travels on. -/
theorem linesOf_forwarded {name : String}
    (hname : ∀ n : Header.Name, isForwarded n = true → eqIgnoreAsciiCase n.text name = false)
    (headers : Header.Map) :
    linesOf name ((headers.filter fun line => isForwarded line.1).filterMap readLine) = [] := by
  rw [linesOf, List.filter_eq_nil_iff]
  intro line hline
  obtain ⟨original, horiginal, hread⟩ := List.mem_filterMap.mp hline
  obtain ⟨value, -, hvalue⟩ := Option.map_eq_some_iff.mp hread
  have hfirst : line.1 = original.1.text := by rw [← hvalue]
  rw [hfirst, hname original.1 (List.mem_filter.mp horiginal).2]
  simp

theorem linesOf_append (name : String) (a b : List (String × String)) :
    linesOf name (a ++ b) = linesOf name a ++ linesOf name b := List.filter_append a b

/-- One line of the frame is of the scheme and at most one of the host, and both are the proxy's. -/
theorem linesOf_requestHeaders (publicUrl : String) (headers : Header.Map) :
    linesOf "x-forwarded-proto" (requestHeaders publicUrl headers) =
        [("X-Forwarded-Proto", forwardedProto publicUrl headers)] ∧
      linesOf "x-forwarded-host" (requestHeaders publicUrl headers) =
        ((forwardedHost headers).map fun host => ("X-Forwarded-Host", host)).toList := by
  have hneither : ∀ n : Header.Name, isForwarded n = true →
      eqIgnoreAsciiCase n.text "x-forwarded-proto" = false ∧
        eqIgnoreAsciiCase n.text "x-forwarded-host" = false := by
    intro n hn
    simp only [isForwarded, Bool.and_eq_true, Bool.not_eq_true'] at hn
    exact hn.2
  have hproto := linesOf_forwarded (fun n hn => (hneither n hn).1) headers
  have hhost := linesOf_forwarded (fun n hn => (hneither n hn).2) headers
  have hpp : eqIgnoreAsciiCase "X-Forwarded-Proto" "x-forwarded-proto" = true := by decide
  have hph : eqIgnoreAsciiCase "X-Forwarded-Proto" "x-forwarded-host" = false := by decide
  have hhp : eqIgnoreAsciiCase "X-Forwarded-Host" "x-forwarded-proto" = false := by decide
  have hhh : eqIgnoreAsciiCase "X-Forwarded-Host" "x-forwarded-host" = true := by decide
  rw [requestHeaders, linesOf_append, linesOf_append, linesOf_append, linesOf_append, hproto, hhost]
  cases forwardedHost headers with
  | none => simp [linesOf, hpp, hph]
  | some host => simp [linesOf, hpp, hph, hhp, hhh]

/-- The proxy resolves the host as it should, unless an unreadable one hides it. -/
theorem forwardedHost_eq_iff (headers : Header.Map) :
    forwardedHost headers = (readable headers "x-forwarded-host").or (readable headers "host") ↔
      ¬ HidesHost headers := by
  unfold forwardedHost readable HidesHost
  cases hup : headers.get "x-forwarded-host" with
  | none => simp
  | some upstream =>
    have hupstream := upstream.isReadable_eq
    cases hstr : upstream.toStr with
    | some text => simp [hstr, hupstream]
    | none =>
      cases hhost : headers.get "host" with
      | none => simp [hstr]
      | some host =>
        have hread := host.isReadable_eq
        cases hhoststr : host.toStr with
        | none => simp [hstr, hhoststr, hread]
        | some text => simp [hstr, hhoststr, hread, hupstream]

/-- For every request and every public URL: the frame tells the application the scheme and the host
as it should exactly when no unreadable upstream host hides the host of the request. -/
theorem forwardedResolved_iff (publicUrl : String) (r : PublicRequest) (body : List UInt8) :
    ForwardedResolved publicUrl r.headers (requestData publicUrl r body).headers ↔
      ¬ HidesHost r.headers := by
  obtain ⟨hproto, hhost⟩ := linesOf_requestHeaders publicUrl r.headers
  rw [← forwardedHost_eq_iff]
  constructor
  · intro h
    have hlines := congrArg List.head? (hhost.symm.trans h.host)
    rw [Option.head?_toList, Option.head?_toList] at hlines
    exact Option.map_injective (fun _ _ hsame => (Prod.mk.inj hsame).2) hlines
  · intro h
    refine ⟨hproto, ?_⟩
    rw [← h]
    exact hhost

/-- An upstream proxy sends a host in Latin-1: the application is not told the readable host of the
request, nor any other. -/
theorem unreadable_host_not_replaced :
    let r : PublicRequest := ⟨"GET", "/", none,
      [(⟨"host", by decide⟩, .fromStatic "my-vps.com" (by decide)),
        (⟨"x-forwarded-host", by decide⟩, ⟨[0x6D, 0xFC, 0x2E, 0x64, 0x65], by decide⟩)], some []⟩
    let frame := requestData "https://my-vps.com" r []
    readable r.headers "host" = some "my-vps.com" ∧ linesOf "x-forwarded-host" frame.headers = [] ∧
      ¬ ForwardedResolved "https://my-vps.com" r.headers frame.headers := by
  intro r frame
  have hhost : readable r.headers "host" = some "my-vps.com" := by decide
  have hnone : linesOf "x-forwarded-host" frame.headers = [] := by decide
  refine ⟨hhost, hnone, ?_⟩
  intro h
  have hupstream : readable r.headers "x-forwarded-host" = none := by decide
  have hlines := hnone.symm.trans h.host
  rw [hupstream, hhost] at hlines
  exact absurd hlines (by simp)

end Mobilink.Server
