import Mobilink.Server.ProxyRequest

/-! The public response: what a response frame of the tunnel, or the error that ends a request,
becomes for the browser. -/
namespace Mobilink.Server
open Mobilink.Core

structure StatusCode where
  code : UInt16
  valid : 100 ≤ code ∧ code ≤ 999
  deriving DecidableEq

def StatusCode.fromU16 (n : UInt16) : Option StatusCode :=
  if h : 100 ≤ n ∧ n ≤ 999 then some ⟨n, h⟩ else none

def StatusCode.badGateway : StatusCode := ⟨502, by decide⟩

structure Response where
  status : StatusCode
  headers : Header.Map
  body : List UInt8
  deriving DecidableEq

/-- Response headers the proxy recomputes itself instead of passing through. -/
def strippedResponseHeaders : List String := ["content-length", "transfer-encoding", "connection"]

def isPassed (name : String) : Bool := !strippedResponseHeaders.contains (toAsciiLowercase name)

def textResponse (status : StatusCode) (message : String) : Response where
  status := status
  headers := [(⟨"content-type", by decide⟩,
    .fromStatic "text/plain; charset=utf-8" (by decide))]
  body := message.toByteArray.data.toList

/-- One turn of the loop over the header lines. The builder keeps its first error. -/
def addHeader (builder : Option Header.Map) (line : String × String) : Option Header.Map :=
  if isPassed line.1 then do
    let headers ← builder
    let (name, value) ← Header.line? line
    some (headers.append name value)
  else builder

def buildResponse (data : HttpResponseData) : Response :=
  match data.headers.foldl addHeader (some []) with
  | some headers => ⟨(StatusCode.fromU16 data.status).getD .badGateway, headers, data.body⟩
  | none => textResponse .badGateway "Invalid tunnel response.\n"

/-- The response with which `proxy_handler` ends. A panicked handler has none. -/
def Request.response : Request → Option Response
  | .answered _ _ _ _ data => some (buildResponse data)
  | .failed e =>
    some (textResponse ((StatusCode.fromU16 e.textResponse.status).getD .badGateway)
      e.textResponse.message)
  | _ => none

/-! ### What the loop builds -/

/-- Every line that is passed on has a valid name and a valid value. -/
def Buildable (headers : List (String × String)) : Prop :=
  ∀ line ∈ headers, isPassed line.1 = true → (Header.line? line).isSome = true

/-- The valid lines among those that are passed on. -/
def passedLines (headers : List (String × String)) : Header.Map :=
  (headers.filter fun line => isPassed line.1).filterMap Header.line?

theorem isPassed_congr {s t : String} (h : eqIgnoreAsciiCase s t = true) : isPassed s = isPassed t := by
  simp only [eqIgnoreAsciiCase, Ascii.eqIgnoreCase, beq_iff_eq] at h
  rw [isPassed, isPassed, toAsciiLowercase, toAsciiLowercase, h]

/-- The values that are passed on under a name are those of its lines, in any letter case. -/
theorem getAll_passedLines (headers : List (String × String)) {name : Header.Name}
    (hpassed : isPassed name.text = true) :
    (passedLines headers).getAll name =
      (headers.filter fun line => eqIgnoreAsciiCase line.1 name.text).filterMap fun line =>
        Header.Value.ofString? line.2 := by
  unfold passedLines
  induction headers with
  | nil => rfl
  | cons line headers ih =>
    cases hname : eqIgnoreAsciiCase line.1 name.text with
    | true =>
      have hof := Header.Name.ofString?_eq_some_iff.mpr hname
      have hpass : isPassed line.1 = true := (isPassed_congr hname).trans hpassed
      cases hvalue : Header.Value.ofString? line.2 with
      | none =>
        have hline : Header.line? line = none := by
          rw [Header.line?, hof, hvalue]
          rfl
        simpa [hname, hpass, hvalue, hline] using ih
      | some value =>
        have hline : Header.line? line = some (name, value) :=
          Header.line?_eq_some_iff.mpr ⟨hof, hvalue⟩
        simpa [hname, hpass, hvalue, hline, Header.Map.getAll_cons] using ih
    | false =>
      -- The line has another name, or is not passed on at all.
      have hother : ∀ value, Header.line? line ≠ some (name, value) := by
        intro value hline
        have hof := (Header.line?_eq_some_iff.mp hline).1
        have htrue := Header.Name.ofString?_eq_some_iff.mp hof
        rw [eqIgnoreAsciiCase, htrue] at hname
        exact absurd hname (by simp)
      cases hpass : isPassed line.1 with
      | false => simpa [hname, hpass] using ih
      | true =>
        cases hline : Header.line? line with
        | none => simpa [hname, hpass, hline] using ih
        | some parsed =>
          have hne : parsed.1 ≠ name := by
            intro he
            exact hother parsed.2 (by rw [hline, ← he])
          simpa [hname, hpass, hline, Header.Map.getAll_cons, hne] using ih

theorem foldl_addHeader_none (headers : List (String × String)) :
    headers.foldl addHeader none = none := by
  induction headers with
  | nil => rfl
  | cons line headers ih =>
    have hstep : addHeader none line = none := by
      unfold addHeader
      split_ifs <;> rfl
    rw [List.foldl_cons, hstep, ih]

theorem foldl_addHeader (headers : List (String × String)) (m : Header.Map) (h : Buildable headers) :
    headers.foldl addHeader (some m) =
      some ((passedLines headers).foldl (fun m line => m.append line.1 line.2) m) := by
  induction headers generalizing m with
  | nil => rfl
  | cons line headers ih =>
    have hrest : Buildable headers := fun l hl => h l (by simp [hl])
    rw [List.foldl_cons]
    cases hpass : isPassed line.1 with
    | false =>
      have hlines : passedLines (line :: headers) = passedLines headers := by
        simp [passedLines, hpass]
      rw [addHeader, hpass, hlines]
      exact ih m hrest
    | true =>
      obtain ⟨⟨name, value⟩, hline⟩ := Option.isSome_iff_exists.mp (h line (by simp) hpass)
      have hlines : passedLines (line :: headers) = (name, value) :: passedLines headers := by
        simp [passedLines, hpass, hline]
      rw [hlines, List.foldl_cons, ← ih _ hrest, addHeader, hpass, hline]
      rfl

theorem foldl_addHeader_of_not_buildable (headers : List (String × String)) (m : Header.Map)
    (h : ¬ Buildable headers) : headers.foldl addHeader (some m) = none := by
  induction headers generalizing m with
  | nil => exact absurd (fun _ hl => absurd hl (by simp)) h
  | cons line headers ih =>
    rw [List.foldl_cons]
    cases hpass : isPassed line.1 with
    | false =>
      have hrest : ¬ Buildable headers := by
        intro hrest
        apply h
        intro l hl hl'
        rcases List.mem_cons.mp hl with rfl | hl
        · rw [hpass] at hl'
          exact absurd hl' (by simp)
        · exact hrest l hl hl'
      rw [addHeader, hpass]
      exact ih m hrest
    | true =>
      cases hline : Header.line? line with
      | none =>
        rw [addHeader, hpass, hline]
        exact foldl_addHeader_none headers
      | some parsed =>
        have hrest : ¬ Buildable headers := by
          intro hrest
          apply h
          intro l hl hl'
          rcases List.mem_cons.mp hl with rfl | hl
          · rw [hline]
            rfl
          · exact hrest l hl hl'
        rw [addHeader, hpass, hline]
        exact ih _ hrest

theorem buildResponse_of_buildable {data : HttpResponseData} (h : Buildable data.headers) :
    buildResponse data = ⟨(StatusCode.fromU16 data.status).getD .badGateway,
      (passedLines data.headers).foldl (fun m line => m.append line.1 line.2) [], data.body⟩ := by
  rw [buildResponse, foldl_addHeader _ _ h]

theorem buildResponse_of_not_buildable {data : HttpResponseData} (h : ¬ Buildable data.headers) :
    buildResponse data = textResponse .badGateway "Invalid tunnel response.\n" := by
  rw [buildResponse, foldl_addHeader_of_not_buildable _ _ h]

/-- For each name the public response has the values of the frame's lines, in their order. -/
theorem getAll_buildResponse {data : HttpResponseData} (h : Buildable data.headers)
    (name : Header.Name) :
    (buildResponse data).headers.getAll name = (passedLines data.headers).getAll name := by
  rw [buildResponse_of_buildable h, Header.Map.getAll_foldl_append, Header.Map.getAll_nil,
    List.nil_append]

/-! ### All or nothing -/

/-- A name that is not passed on is in no response. -/
theorem getAll_passedLines_of_stripped (headers : List (String × String)) {name : Header.Name}
    (hname : isPassed name.text = false) : (passedLines headers).getAll name = [] := by
  apply Header.Map.getAll_eq_nil_of_not_mem
  intro hmem
  obtain ⟨parsed, hparsed, hfirst⟩ := List.mem_map.mp hmem
  obtain ⟨line, hline, hvalid⟩ := List.mem_filterMap.mp hparsed
  have hpass : isPassed line.1 = true := (List.mem_filter.mp hline).2
  have hof := (Header.line?_eq_some_iff.mp hvalid).1
  rw [isPassed_congr (Header.Name.ofString?_eq_some_iff.mp hof), hfirst, hname] at hpass
  exact absurd hpass (by simp)

/-- The values that a name has in the frame. -/
def frameValues (headers : List (String × String)) (name : Header.Name) : List (List Char) :=
  (headers.filter fun line => eqIgnoreAsciiCase line.1 name.text).map fun line =>
    Header.octets line.2

/-- When all lines are valid, none of a name's values is lost. -/
theorem octets_getAll_passedLines {headers : List (String × String)} (h : Buildable headers)
    {name : Header.Name} (hname : isPassed name.text = true) :
    ((passedLines headers).getAll name).map Header.Value.octets = frameValues headers name := by
  rw [getAll_passedLines _ hname, List.map_filterMap, frameValues, ← List.filterMap_eq_map]
  apply List.filterMap_congr
  intro line hline
  obtain ⟨hmem, hsame⟩ := List.mem_filter.mp hline
  have hpass : isPassed line.1 = true := (isPassed_congr hsame).trans hname
  obtain ⟨⟨_, value⟩, hvalid⟩ := Option.isSome_iff_exists.mp (h line hmem hpass)
  have hof := (Header.line?_eq_some_iff.mp hvalid).2
  rw [hof, Option.map_some, Header.Value.octets_of_ofString? hof, Function.comp_apply]

theorem buildable_filter_isPassed (headers : List (String × String)) :
    Buildable (headers.filter fun line => isPassed line.1) ↔ Buildable headers := by
  simp only [Buildable, List.mem_filter]
  constructor
  · exact fun h line hline hpass => h line ⟨hline, hpass⟩ hpass
  · exact fun h line hline => h line hline.1

/-- The lines that are not passed on do not count, valid or not. -/
theorem buildResponse_filter_isPassed (data : HttpResponseData) :
    buildResponse { data with headers := data.headers.filter fun line => isPassed line.1 } =
      buildResponse data := by
  have hlines : passedLines (data.headers.filter fun line => isPassed line.1) =
      passedLines data.headers := by
    simp [passedLines, List.filter_filter]
  by_cases h : Buildable data.headers
  · have h' := (buildable_filter_isPassed data.headers).mpr h
    rw [buildResponse_of_buildable h, buildResponse_of_buildable h', hlines]
  · have h' := fun hb => h ((buildable_filter_isPassed data.headers).mp hb)
    rw [buildResponse_of_not_buildable h, buildResponse_of_not_buildable h']

/-- A frame whose lines are all valid is sent as it is, without the stripped lines. A frame with one
invalid line, wherever it stands, is replaced by a fixed page. -/
theorem buildResponse_all_or_nothing (data : HttpResponseData) :
    (Buildable data.headers →
      (buildResponse data).status.code =
          (if 100 ≤ data.status ∧ data.status ≤ 999 then data.status else 502) ∧
        (buildResponse data).body = data.body ∧
        ∀ name, ((buildResponse data).headers.getAll name).map Header.Value.octets =
          if isPassed name.text then frameValues data.headers name else []) ∧
    (¬ Buildable data.headers →
      buildResponse data = textResponse .badGateway "Invalid tunnel response.\n") ∧
    buildResponse { data with headers := data.headers.filter fun line => isPassed line.1 } =
      buildResponse data := by
  refine ⟨?_, buildResponse_of_not_buildable, buildResponse_filter_isPassed data⟩
  intro h
  refine ⟨?_, ?_, ?_⟩
  · rw [buildResponse_of_buildable h, StatusCode.fromU16]
    split_ifs <;> rfl
  · rw [buildResponse_of_buildable h]
  · intro name
    rw [getAll_buildResponse h]
    split_ifs with hname
    · exact octets_getAll_passedLines h hname
    · rw [getAll_passedLines_of_stripped _ (by simpa using hname), List.map_nil]

/-- Two cookies and an unreadable content length get through; a line break in a value does not. -/
theorem buildResponse_all_or_nothing_cookies :
    let cookies : HttpResponseData := ⟨1000, [("Set-Cookie", "a=1"), ("Content-Length", "\n"),
      ("set-cookie", "b=2")], [7]⟩
    let broken : HttpResponseData := ⟨200, [("set-cookie", "a=1"), ("x-note", "a\nb")], [7]⟩
    ((buildResponse cookies).status.code = 502 ∧ (buildResponse cookies).body = [7] ∧
      ((buildResponse cookies).headers.getAll ⟨"set-cookie", by decide⟩).map Header.Value.octets =
        ["a=1".toList, "b=2".toList]) ∧
    buildResponse broken = textResponse .badGateway "Invalid tunnel response.\n" := by
  intro cookies broken
  have hcookies : Buildable cookies.headers := by
    unfold Buildable
    decide
  have hbroken : ¬ Buildable broken.headers := by
    unfold Buildable
    decide
  obtain ⟨hstatus, hbody, hvalues⟩ := (buildResponse_all_or_nothing cookies).1 hcookies
  refine ⟨⟨hstatus, hbody, ?_⟩, (buildResponse_all_or_nothing broken).2.1 hbroken⟩
  rw [hvalues]
  decide

/-! ### The lines of the application -/

/-- The application answered with a line of that name, and its response could be built. -/
def Request.AppSets (q : Request) (name : Header.Name) : Prop :=
  ∃ session connection auth erudaDisabled data,
    q = .answered session connection auth erudaDisabled data ∧ Buildable data.headers ∧
      ∃ line ∈ data.headers, eqIgnoreAsciiCase line.1 name.text = true

theorem getAll_buildResponse_eq_nil_iff {data : HttpResponseData} (h : Buildable data.headers)
    {name : Header.Name} (hpassed : isPassed name.text = true) :
    (buildResponse data).headers.getAll name = [] ↔
      ∀ line ∈ data.headers, eqIgnoreAsciiCase line.1 name.text = false := by
  rw [getAll_buildResponse h, getAll_passedLines _ hpassed]
  constructor
  · intro hnil line hline
    by_contra hname
    rw [Bool.not_eq_false] at hname
    have hpass : isPassed line.1 = true := (isPassed_congr hname).trans hpassed
    obtain ⟨⟨name', value⟩, hparsed⟩ := Option.isSome_iff_exists.mp (h line hline hpass)
    have hmem : value ∈ (data.headers.filter fun line =>
        eqIgnoreAsciiCase line.1 name.text).filterMap fun line => Header.Value.ofString? line.2 :=
      List.mem_filterMap.mpr ⟨line, List.mem_filter.mpr ⟨hline, hname⟩,
        (Header.line?_eq_some_iff.mp hparsed).2⟩
    rw [hnil] at hmem
    exact absurd hmem (by simp)
  · intro hnone
    have hfilter : (data.headers.filter fun line => eqIgnoreAsciiCase line.1 name.text) = [] := by
      rw [List.filter_eq_nil_iff]
      intro line hline
      simp [hnone line hline]
    rw [hfilter, List.filterMap_nil]

/-- A text page has its content type and no other line. -/
theorem getAll_textResponse (status : StatusCode) (message : String) {name : Header.Name}
    (h : name.text ≠ "content-type") : (textResponse status message).headers.getAll name = [] := by
  have hne : (⟨"content-type", by decide⟩ : Header.Name) ≠ name := by
    intro he
    exact h (congrArg Header.Name.text he).symm
  rw [textResponse, Header.Map.getAll_cons, if_neg hne, Header.Map.getAll_nil]

/-- Apart from the content type of a text, every line of a response is the application's. -/
theorem getAll_response_eq_nil_iff {q : Request} {response : Response}
    (h : q.response = some response) (name : Header.Name) (hpassed : isPassed name.text = true)
    (htype : name.text ≠ "content-type") :
    response.headers.getAll name = [] ↔ ¬ q.AppSets name := by
  have htext := fun status message => getAll_textResponse status message htype
  unfold Request.response at h
  split at h
  · rename_i session connection auth erudaDisabled data
    rw [← Option.some.inj h]
    by_cases hb : Buildable data.headers
    · rw [getAll_buildResponse_eq_nil_iff hb hpassed]
      constructor
      · rintro hnone ⟨_, _, _, _, _, hq, -, line, hline, hname⟩
        have hdata := (Request.answered.inj hq).2.2.2.2
        rw [← hdata] at hline
        rw [hnone line hline] at hname
        exact absurd hname (by simp)
      · intro hnot line hline
        by_contra hname
        rw [Bool.not_eq_false] at hname
        exact hnot ⟨_, _, _, _, _, rfl, hb, line, hline, hname⟩
    · rw [buildResponse_of_not_buildable hb]
      refine iff_of_true (htext _ _) ?_
      rintro ⟨_, _, _, _, _, hq, hb', -⟩
      rw [← (Request.answered.inj hq).2.2.2.2] at hb'
      exact hb hb'
  · rw [← Option.some.inj h]
    refine iff_of_true (htext _ _) ?_
    rintro ⟨_, _, _, _, _, hq, -⟩
    exact absurd hq (by simp)
  · exact absurd h (by simp)

end Mobilink.Server
