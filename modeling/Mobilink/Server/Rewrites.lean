import Mobilink.Server.Http
import Mobilink.Server.Transform

/-! The two rewrites of a response frame, cookies by the authentication mode and the debug console by
the Eruda flag: what each of them touches, and that their order does not matter. -/
namespace Mobilink.Server
open Mobilink.Core

/-- The conditions under which the injector edits a page. -/
def ErudaInjector.injects (response : HttpResponseData) : Bool :=
  isHtml response && !isCompressed response && (fromUtf8 response.body).isSome

/-- What happens to a single line in `Cookie` mode. -/
def rewriteLine (line : String × String) : String × String :=
  if eqIgnoreAsciiCase line.1 "set-cookie" then (line.1, rewriteSetCookieCrossSite line.2) else line

theorem rewriteLine_name (line : String × String) : (rewriteLine line).1 = line.1 := by
  unfold rewriteLine
  split_ifs <;> rfl

theorem rewriteCookiesCrossSite_eq (response : HttpResponseData) :
    rewriteCookiesCrossSite response =
      { response with headers := response.headers.map rewriteLine } := rfl

theorem filter_rewriteLine (p : String → Bool) (headers : List (String × String)) :
    (headers.map rewriteLine).filter (fun line => p line.1) =
      (headers.filter fun line => p line.1).map rewriteLine := by
  rw [List.filter_map]
  congr 2
  funext line
  exact congrArg p (rewriteLine_name line)

/-- Looking a header up does not see the rewritten cookies. -/
theorem header_rewriteCookies (response : HttpResponseData) {name : String}
    (hname : eqIgnoreAsciiCase "set-cookie" name = false) :
    (rewriteCookiesCrossSite response).header name = response.header name := by
  rw [rewriteCookiesCrossSite_eq]
  unfold HttpResponseData.header
  dsimp only
  induction response.headers with
  | nil => rfl
  | cons line headers ih =>
    rw [List.map_cons, List.find?_cons, List.find?_cons, rewriteLine_name]
    cases hline : eqIgnoreAsciiCase line.1 name with
    | false => exact ih
    | true =>
      have hcookie : eqIgnoreAsciiCase line.1 "set-cookie" = false := by
        rw [Bool.eq_false_iff]
        intro hc
        simp only [eqIgnoreAsciiCase, Ascii.eqIgnoreCase, beq_iff_eq] at hc hline hname
        rw [hc, beq_eq_false_iff_ne] at *
        exact hname hline
      rw [rewriteLine, hcookie]
      rfl

namespace ErudaInjector

theorem isHtml_rewriteCookies (response : HttpResponseData) :
    isHtml (rewriteCookiesCrossSite response) = isHtml response := by
  rw [isHtml, header_rewriteCookies response (by decide), isHtml]

theorem isCompressed_rewriteCookies (response : HttpResponseData) :
    isCompressed (rewriteCookiesCrossSite response) = isCompressed response := by
  rw [isCompressed, header_rewriteCookies response (by decide), isCompressed]

/-- The injector's decision and its new body are the same before and after the cookies are
rewritten. -/
theorem transform?_rewriteCookies (response : HttpResponseData) :
    transform? (rewriteCookiesCrossSite response) =
      (transform? response).map rewriteCookiesCrossSite := by
  have hbody : (rewriteCookiesCrossSite response).body = response.body := rfl
  unfold transform?
  rw [isHtml_rewriteCookies, isCompressed_rewriteCookies, hbody]
  split_ifs
  · rfl
  · rfl
  · cases fromUtf8 response.body with
    | none => rfl
    | some text =>
      dsimp only
      cases inject text with
      | none => rfl
      | some injected =>
        have hfilter := filter_rewriteLine (fun name => !eqIgnoreAsciiCase name "content-length")
          response.headers
        exact congrArg (fun headers =>
          some (⟨response.status, headers, injected⟩ : HttpResponseData)) hfilter

theorem transform_rewriteCookies (response : HttpResponseData) :
    transform (rewriteCookiesCrossSite response) = rewriteCookiesCrossSite (transform response) := by
  have h := transform?_rewriteCookies response
  rw [transform?_eq, transform?_eq, Option.map_some] at h
  exact Option.some.inj h

theorem transform_of_not_injects {response : HttpResponseData} (h : injects response = false) :
    transform response = response := by
  have heq : transform? response = some response := by
    unfold transform?
    unfold injects at h
    cases hhtml : isHtml response with
    | false => rfl
    | true =>
      cases hcomp : isCompressed response with
      | true => rfl
      | false =>
        have hbody : fromUtf8 response.body = none := by
          simpa [hhtml, hcomp] using h
        rw [hbody]
        rfl
  exact Option.some.inj ((transform?_eq response).symm.trans heq)

/-- What the injector makes of a page that it edits. -/
theorem exists_injected {response : HttpResponseData} (h : injects response = true) :
    ∃ pre post : String, response.body = bytesOf (pre ++ post) ∧
      transform response =
        { status := response.status
          headers := response.headers.filter fun line => !eqIgnoreAsciiCase line.1 "content-length"
          body := bytesOf (pre ++ erudaSnippet ++ post) } := by
  simp only [injects, Bool.and_eq_true, Bool.not_eq_true'] at h
  obtain ⟨⟨hhtml, hcomp⟩, hbody⟩ := h
  obtain ⟨text, htext⟩ := Option.isSome_iff_exists.mp hbody
  obtain ⟨pre, post, hs, -, hinject⟩ := inject_eq text
  have heq := transform?_eq response
  unfold transform? at heq
  simp only [hhtml, hcomp, htext, hinject, Option.map_some, Bool.not_true, Bool.false_eq_true,
    if_false] at heq
  exact ⟨pre, post, hs ▸ (fromUtf8_eq_some_iff _ _).mp htext, (Option.some.inj heq).symm⟩

/-- An injected page keeps its status and all lines but the content length. -/
theorem transform_of_injects {response : HttpResponseData} (h : injects response = true) :
    (transform response).status = response.status ∧
      (transform response).headers =
        response.headers.filter fun line => !eqIgnoreAsciiCase line.1 "content-length" := by
  obtain ⟨pre, post, -, heq⟩ := exists_injected h
  rw [heq]
  exact ⟨rfl, rfl⟩

/-- It grows by the snippet. -/
theorem length_body_of_injects {response : HttpResponseData} (h : injects response = true) :
    (transform response).body.length = response.body.length + (bytesOf erudaSnippet).length := by
  obtain ⟨pre, post, hbody, heq⟩ := exists_injected h
  rw [heq, hbody]
  simp only [bytesOf_append, List.length_append]
  omega

/-- Only the conditions of the injector keep a response as it is. -/
theorem transform_eq_self_iff (response : HttpResponseData) :
    transform response = response ↔ injects response = false := by
  constructor
  · intro heq
    rw [Bool.eq_false_iff]
    intro hinjects
    have hlen := length_body_of_injects hinjects
    have hsnippet : (bytesOf erudaSnippet).length = 88 := by decide
    rw [heq, hsnippet] at hlen
    omega
  · exact transform_of_not_injects

/-! ### Encoded bodies -/

/-- The codings of a body: those of all its `Content-Encoding` lines, taken together. -/
def codings (response : HttpResponseData) : List (List Char) :=
  (response.headers.filter fun line => eqIgnoreAsciiCase line.1 "content-encoding").flatMap
    fun line => Header.members line.2.toList

def IsEncoded (response : HttpResponseData) : Prop :=
  ∃ coding ∈ codings response, Ascii.eqIgnoreCase coding "identity".toList = false

/-- The first `Content-Encoding` line is `identity`, whatever the others are, and the body can be
edited as an HTML text. -/
def PassesForIdentity (response : HttpResponseData) : Prop :=
  (response.header "content-encoding").any (eqIgnoreAsciiCase · "identity") = true ∧
    isHtml response = true ∧ (fromUtf8 response.body).isSome = true

theorem exists_header_of_isEncoded {response : HttpResponseData} (h : IsEncoded response) :
    ∃ enc, response.header "content-encoding" = some enc := by
  obtain ⟨coding, hcoding, -⟩ := h
  obtain ⟨line, hline, -⟩ := List.mem_flatMap.mp hcoding
  obtain ⟨hmem, hname⟩ := List.mem_filter.mp hline
  have hfound : (response.headers.find? fun h =>
      eqIgnoreAsciiCase h.1 "content-encoding").isSome = true :=
    List.find?_isSome.mpr ⟨line, hmem, hname⟩
  obtain ⟨first, hfirst⟩ := Option.isSome_iff_exists.mp hfound
  exact ⟨first.2, by rw [HttpResponseData.header, hfirst, Option.map_some]⟩

/-- An encoded response is left as it is exactly when it does not pass for an unencoded HTML page,
which it does if a line `identity` stands before the line with the coding. -/
theorem transform_encoded_iff (response : HttpResponseData) (h : IsEncoded response) :
    transform response = response ↔ ¬ PassesForIdentity response := by
  obtain ⟨enc, henc⟩ := exists_header_of_isEncoded h
  rw [transform_eq_self_iff, injects, isCompressed, PassesForIdentity, henc]
  simp only [Option.any_some, Bool.not_not, ← Bool.not_eq_true, Bool.and_eq_true]
  tauto

/-- A compressed page of a single coding. -/
theorem transform_encoded_iff_gzip :
    let page : HttpResponseData := ⟨200, [("Content-Type", "text/html"),
      ("content-encoding", "Identity, GZIP")], bytesOf "<p></p>"⟩
    transform page = page := by
  intro page
  have hencoded : IsEncoded page := by
    unfold IsEncoded
    decide
  have hnot : ¬ PassesForIdentity page := by
    unfold PassesForIdentity
    decide
  exact (transform_encoded_iff page hencoded).mpr hnot

/-- The same codings in two lines: the page is edited. -/
theorem identity_line_hides_gzip :
    let page : HttpResponseData := ⟨200, [("Content-Type", "text/html"),
      ("Content-Encoding", "identity"), ("Content-Encoding", "gzip")], bytesOf "<p></p>"⟩
    IsEncoded page ∧ transform page ≠ page := by
  intro page
  have hencoded : IsEncoded page := by
    unfold IsEncoded
    decide
  refine ⟨hencoded, ?_⟩
  rw [ne_eq, transform_eq_self_iff]
  decide

end ErudaInjector

open ErudaInjector

theorem applyAuthMode_eq (auth : AuthMode) (response : HttpResponseData) :
    applyAuthMode auth response =
      { response with
        headers := response.headers.map (if auth = .cookie then rewriteLine else id) } := by
  unfold applyAuthMode
  split_ifs
  · rw [rewriteCookiesCrossSite_eq]
  · rw [List.map_id]

/-- What the Eruda flag leaves of a frame, its body apart. -/
theorem applyEruda_eq (publicUrl : String) (erudaDisabled : Bool) (response : HttpResponseData) :
    let injected := !erudaDisabled && injects response
    let out := applyEruda ⟨transform, publicUrl⟩ erudaDisabled response
    out.status = response.status ∧
      out.headers = (if injected then
        response.headers.filter fun line => !eqIgnoreAsciiCase line.1 "content-length"
      else response.headers) ∧
      (injected = false → out.body = response.body) := by
  dsimp only
  cases erudaDisabled with
  | true => simp [applyEruda]
  | false =>
    cases hinjects : injects response with
    | false => simp [applyEruda, transform_of_not_injects hinjects]
    | true =>
      obtain ⟨hstatus, hheaders⟩ := transform_of_injects hinjects
      simp [applyEruda, hstatus, hheaders]

theorem applyEruda_applyAuthMode (publicUrl : String) (auth : AuthMode) (erudaDisabled : Bool)
    (response : HttpResponseData) :
    applyEruda ⟨transform, publicUrl⟩ erudaDisabled (applyAuthMode auth response) =
      applyAuthMode auth (applyEruda ⟨transform, publicUrl⟩ erudaDisabled response) := by
  unfold applyEruda applyAuthMode
  split_ifs
  · rfl
  · rfl
  · exact transform_rewriteCookies response
  · rfl

/-- Over every frame, mode and flag: the status stays, only cookies are rewritten and only in
`Cookie` mode, only the content length is removed and the body edited and only on injection, and
either rewrite can come first. -/
theorem rewrites_independent (publicUrl : String) (auth : AuthMode) (erudaDisabled : Bool)
    (response : HttpResponseData) :
    let proxy : ProxyState := ⟨transform, publicUrl⟩
    let injected := !erudaDisabled && injects response
    let out := applyEruda proxy erudaDisabled (applyAuthMode auth response)
    out.status = response.status ∧
      out.headers =
        (if injected then
          response.headers.filter fun line => !eqIgnoreAsciiCase line.1 "content-length"
        else response.headers).map (if auth = .cookie then rewriteLine else id) ∧
      out.body = (applyEruda proxy erudaDisabled response).body ∧
      (injected = false → out.body = response.body) ∧
      out = applyAuthMode auth (applyEruda proxy erudaDisabled response) ∧
      (erudaDisabled = true → auth ≠ .cookie → out = response) ∧
      transform (rewriteCookiesCrossSite response) =
        rewriteCookiesCrossSite (transform response) := by
  intro proxy injected out
  have hout : out = applyAuthMode auth (applyEruda proxy erudaDisabled response) :=
    applyEruda_applyAuthMode publicUrl auth erudaDisabled response
  have hauth := applyAuthMode_eq auth (applyEruda proxy erudaDisabled response)
  obtain ⟨hstatus, hheaders, hbody⟩ := applyEruda_eq publicUrl erudaDisabled response
  refine ⟨?_, ?_, ?_, ?_, hout, ?_, transform_rewriteCookies response⟩
  · rw [hout, hauth]
    exact hstatus
  · rw [hout, hauth]
    exact congrArg (List.map _) hheaders
  · rw [hout, hauth]
  · rw [hout, hauth]
    exact hbody
  · intro hdisabled hmode
    rw [hout]
    unfold applyEruda applyAuthMode
    rw [if_neg hmode, if_pos hdisabled]

/-- A line that carries one name does not carry another. -/
theorem eqIgnoreAsciiCase_ne {line name other : String}
    (hother : eqIgnoreAsciiCase name other = false) (hline : eqIgnoreAsciiCase line name = true) :
    eqIgnoreAsciiCase line other = false := by
  simp only [eqIgnoreAsciiCase, Ascii.eqIgnoreCase, beq_iff_eq, beq_eq_false_iff_ne] at *
  rw [hline]
  exact hother

/-- The injector only ever removes a content length. -/
theorem filter_applyEruda (publicUrl : String) (erudaDisabled : Bool) (response : HttpResponseData)
    {name : String} (hlength : eqIgnoreAsciiCase name "content-length" = false) :
    ((applyEruda ⟨transform, publicUrl⟩ erudaDisabled response).headers.filter
        fun line => eqIgnoreAsciiCase line.1 name) =
      response.headers.filter fun line => eqIgnoreAsciiCase line.1 name := by
  obtain ⟨-, hheaders, -⟩ := applyEruda_eq publicUrl erudaDisabled response
  rw [hheaders]
  split_ifs
  · rw [List.filter_filter]
    apply List.filter_congr
    intro line _
    cases hline : eqIgnoreAsciiCase line.1 name with
    | false => rfl
    | true => simp [eqIgnoreAsciiCase_ne hlength hline]
  · rfl

/-- The lines of any other name are the same before and after both rewrites. -/
theorem filter_rewritten (publicUrl : String) (auth : AuthMode) (erudaDisabled : Bool)
    (response : HttpResponseData) {name : String}
    (hcookie : eqIgnoreAsciiCase name "set-cookie" = false)
    (hlength : eqIgnoreAsciiCase name "content-length" = false) :
    ((applyEruda ⟨transform, publicUrl⟩ erudaDisabled
        (applyAuthMode auth response)).headers.filter fun line => eqIgnoreAsciiCase line.1 name) =
      response.headers.filter fun line => eqIgnoreAsciiCase line.1 name := by
  have hkept := filter_applyEruda publicUrl erudaDisabled response hlength
  rw [applyEruda_applyAuthMode, applyAuthMode_eq]
  dsimp only
  split_ifs with hauth
  · rw [filter_rewriteLine (fun other => eqIgnoreAsciiCase other name), hkept]
    -- no line that carries `name` is a cookie
    calc (response.headers.filter fun line => eqIgnoreAsciiCase line.1 name).map rewriteLine
        = (response.headers.filter fun line => eqIgnoreAsciiCase line.1 name).map id := by
          apply List.map_congr_left
          intro line hline
          have hname := (List.mem_filter.mp hline).2
          rw [rewriteLine, eqIgnoreAsciiCase_ne hcookie hname]
          rfl
      _ = _ := List.map_id _
  · rw [List.map_id, hkept]

end Mobilink.Server
